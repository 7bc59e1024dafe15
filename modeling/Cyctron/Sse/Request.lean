/- Cyctron/Sse/Request
   digest: When the calls of a stream use the parameters of its request as they are. -/

import Cyctron.Calldyn.Local
import Cyctron.Sse.Life

set_option autoImplicit false
set_option relaxedAutoImplicit false

namespace Cyctron.Sse.Request

open Cyctron.Base.CString
open Cyctron.Base.Number (atoi)
open Cyctron.Calldyn.Local Cyctron.Http.Message Cyctron.Mongoose.Query
open Cyctron.Json.Text (isHex)
open Cyctron.Mongoose.Json (hexByte)
open Cyctron.Plugin.Path Cyctron.Sse.Life Cyctron.Sse.Model Cyctron.Sse.Table

/-- How a query gives a parameter. -/
inductive Given
  | absent
  | malformed
  | value (v : Bytes)
  deriving DecidableEq

/-- The first parameter with this name, decoded as a whole. -/
def given (query : Bytes) (name : String) : Given :=
  match mgHttpVar query (ascii name) with
  | none => .absent
  | some raw =>
    match mgUrlDecode raw.length raw with
    | none => .malformed
    | some v => .value v

/-- What is asked for: the default of a parameter that is absent, or its value. -/
def Given.asked (dflt : Bytes) : Given → Option Bytes
  | .absent => some dflt
  | .malformed => none
  | .value v => some v

/-- A string that fits into a field of the given size, with its terminator. -/
def Fits (size : Nat) (v : Bytes) : Prop := v ≠ [] ∧ 0 ∉ v ∧ v.length < size

section Decoding

variable {room room' : Nat} {s v : Bytes} {c : UInt8}

/-- The byte that a form value begins with, and what follows it. -/
def decodedByte (c : UInt8) (s : Bytes) : Option (UInt8 × Bytes) :=
  if c = 37 then
    match s with
    | x :: y :: s => if isHex x && isHex y then some ((hexByte 0 [x, y]).getD 0, s) else none
    | _ => none
  else some (if c = 43 then 32 else c, s)

private theorem decode_cons (room : Nat) (c : UInt8) (s : Bytes) : mgUrlDecode (room + 1) (c :: s) =
    (decodedByte c s).bind fun r => (mgUrlDecode room r.2).map (r.1 :: ·) := by
  unfold decodedByte
  by_cases hc : c = 37
  · subst hc
    cases s with
    | nil => rfl
    | cons x s =>
      cases s with
      | nil => rfl
      | cons y s =>
        change (if isHex x && isHex y then
          (mgUrlDecode room s).map ((hexByte 0 [x, y]).getD 0 :: ·) else none) = _
        rw [if_pos rfl]
        dsimp only
        by_cases hhex : (isHex x && isHex y) = true
        · rw [if_pos hhex, if_pos hhex]
          rfl
        · rw [if_neg hhex, if_neg hhex]
          rfl
  · have hplain : mgUrlDecode (room + 1) (c :: s) =
        (mgUrlDecode room s).map ((if c = 43 then 32 else c) :: ·) := by
      cases s with
      | nil => exact if_neg hc
      | cons x s =>
        cases s with
        | nil => exact if_neg hc
        | cons y s => exact if_neg hc
    rw [hplain, if_neg hc]
    rfl

private theorem decodedByte_rest {r : UInt8 × Bytes} (h : decodedByte c s = some r) :
    r.2.length ≤ s.length := by
  unfold decodedByte at h
  split at h
  · cases s with
    | nil => cases h
    | cons x s =>
      cases s with
      | nil => cases h
      | cons y s =>
        dsimp only at h
        split at h
        · obtain rfl := Option.some.inj h
          simp only [List.length_cons]
          omega
        · cases h
  · rw [← Option.some.inj h]

private theorem decode_nil (room : Nat) : mgUrlDecode room [] = some [] := by
  cases room with
  | zero => rfl
  | succ room => rfl

/-- A value is no longer than its form, and no longer than its room. -/
private theorem decode_length (h : mgUrlDecode room s = some v) :
    v.length ≤ room ∧ v.length ≤ s.length := by
  induction room generalizing s v with
  | zero =>
    cases s with
    | nil =>
      rw [← Option.some.inj h]
      exact ⟨Nat.le_refl 0, Nat.le_refl 0⟩
    | cons c s => cases h
  | succ room ih =>
    cases s with
    | nil =>
      rw [← Option.some.inj h]
      exact ⟨Nat.zero_le _, Nat.le_refl 0⟩
    | cons c s =>
      rw [decode_cons] at h
      obtain ⟨r, hr, hrest⟩ := Option.bind_eq_some_iff.mp h
      obtain ⟨w, hw, rfl⟩ := Option.map_eq_some_iff.mp hrest
      obtain ⟨hroom, hlength⟩ := ih hw
      have hle := decodedByte_rest hr
      rw [List.length_cons, List.length_cons]
      omega

/-- The value does not depend on the room, when it fits. -/
private theorem decode_room (h : mgUrlDecode room s = some v) (fits : v.length ≤ room') :
    mgUrlDecode room' s = some v := by
  induction room generalizing s v room' with
  | zero =>
    cases s with
    | nil => rw [decode_nil, ← Option.some.inj h]
    | cons c s => cases h
  | succ room ih =>
    cases s with
    | nil => rw [decode_nil, ← Option.some.inj h]
    | cons c s =>
      rw [decode_cons] at h
      obtain ⟨r, hr, hrest⟩ := Option.bind_eq_some_iff.mp h
      obtain ⟨w, hw, rfl⟩ := Option.map_eq_some_iff.mp hrest
      rw [List.length_cons] at fits
      obtain ⟨room', rfl⟩ : ∃ k, room' = k + 1 := ⟨room' - 1, by omega⟩
      rw [decode_cons, hr, Option.bind_some, ih hw (by omega)]
      rfl

end Decoding

section Parameters

variable {hm : HttpMessage} {name dflt : String} {len size : Nat} {v : Bytes}

/-- The query of a message without one has no parameters. -/
private theorem mgHttpVar_nil (name : Bytes) : mgHttpVar [] name = none := rfl

private theorem queryVar_given (hm : HttpMessage) (name : String) (len : Nat) : queryVar hm name len =
    ((given hm.query name).asked []).filter fun v => v ≠ [] ∧ v.length ≤ len - 1 := by
  unfold queryVar mgHttpGetVar given
  split
  · rename_i hempty
    rw [hempty, mgHttpVar_nil]
    rfl
  · cases mgHttpVar hm.query (ascii name) with
    | none => rfl
    | some raw =>
      dsimp only
      rw [Option.bind_some]
      cases hwhole : mgUrlDecode raw.length raw with
      | none =>
        cases hcut : mgUrlDecode (len - 1) raw with
        | none => rfl
        | some w =>
          rw [decode_room hcut (decode_length hcut).2] at hwhole
          cases hwhole
      | some w =>
        dsimp only [Given.asked]
        by_cases hfits : w.length ≤ len - 1
        · rw [decode_room hwhole hfits]
          by_cases hne : w = []
          · simp [Option.filter, hne]
          · simp [Option.filter, hne, hfits]
        · cases hcut : mgUrlDecode (len - 1) raw with
          | none => simp [Option.filter, hfits]
          | some w' =>
            have hsame := decode_room hcut (decode_length hcut).2
            rw [hwhole] at hsame
            obtain rfl := Option.some.inj hsame
            exact absurd (decode_length hcut).1 hfits

private theorem queryVar_fits (hgiven : given hm.query name = .value v) (fits : Fits size v)
    (hsize : size ≤ len) : queryVar hm name len = some v := by
  obtain ⟨hne, -, hlength⟩ := fits
  rw [queryVar_given, hgiven]
  refine Option.filter_eq_some_iff.mpr ⟨rfl, decide_eq_true ⟨hne, ?_⟩⟩
  omega

/-- A value that fits into the field and its buffer is what the field gets. -/
private theorem field_of_fits (hgiven : given hm.query name = .value v) (fits : Fits size v)
    (hsize : size ≤ len) : queryField dflt size (queryVar hm name len) = v := by
  have hvar := queryVar_fits hgiven fits hsize
  obtain ⟨hne, hplain, hlength⟩ := fits
  obtain ⟨c, t, rfl⟩ := List.exists_cons_of_ne_nil hne
  rw [hvar]
  change snprintf size (cString (c :: t)) = c :: t
  rw [cString_plain hplain, snprintf_fits hlength]

private theorem queryVar_none (hgiven : ∀ v, given hm.query name ≠ .value v) :
    queryVar hm name len = none := by
  rw [queryVar_given]
  cases hg : given hm.query name with
  | absent => rfl
  | malformed => rfl
  | value v => exact absurd hg (hgiven v)

/-- Without a value that the handler can use, the field keeps its default. -/
private theorem field_default (hgiven : ∀ v, given hm.query name ≠ .value v) :
    queryField dflt size (queryVar hm name len) = ascii dflt := by
  rw [queryVar_none hgiven]
  rfl

/-- What the handler converts to a number: the value in a buffer of this size, up to a NUL. -/
def readVar (hm : HttpMessage) (name : String) (len : Nat) : Option Bytes :=
  (queryVar hm name len).map cString

/-- A value is read as a whole exactly when it fits into the buffer. -/
private theorem readVar_iff (hgiven : given hm.query name = .value v) :
    readVar hm name len = some v ↔ Fits len v := by
  constructor
  · intro h
    rw [readVar, queryVar_given, hgiven] at h
    obtain ⟨w, hw, hcut⟩ := Option.map_eq_some_iff.mp h
    obtain ⟨hw, hfits⟩ := Option.filter_eq_some_iff.mp hw
    obtain rfl := Option.some.inj hw
    obtain ⟨hne, hlength⟩ := of_decide_eq_true hfits
    have hpos := List.length_pos_of_ne_nil hne
    refine ⟨hne, fun hzero => ?_, by omega⟩
    rw [← hcut] at hzero
    exact absurd (List.mem_takeWhile_imp hzero) (by decide)
  · intro fits
    rw [readVar, queryVar_fits hgiven fits (Nat.le_refl _), Option.map_some, cString_plain fits.2.1]

end Parameters

section Fields

variable {hm : HttpMessage} {name dflt : String} {size : Nat} {f v : Bytes}

/-- A given parameter that a field can hold as it is. -/
def Given.Fits (size : Nat) : Given → Prop
  | .absent => True
  | .malformed => False
  | .value v => Request.Fits size v

/-- A name that the handler accepts is the one that is asked for exactly when the field can hold it. -/
private theorem asked_name_iff (hfield : f = queryField dflt size (queryVar hm name SSE_ARGS_MAX))
    (hname : Name f) (hlength : f.length < size) (hsize : size ≤ SSE_ARGS_MAX) :
    (given hm.query name).asked (ascii dflt) = some f ↔ (given hm.query name).Fits size := by
  cases hgiven : given hm.query name with
  | absent =>
    refine iff_of_true ?_ trivial
    have hnone : ∀ v, given hm.query name ≠ .value v := by
      intro v hv
      rw [hgiven] at hv
      cases hv
    rw [hfield, field_default hnone]
    rfl
  | malformed =>
    refine iff_of_false (fun h => ?_) id
    cases h
  | value v =>
    constructor
    · intro hasked
      obtain rfl := Option.some.inj hasked
      refine ⟨hname.1, fun hzero => ?_, hlength⟩
      exact absurd (hname.2 0 hzero) (by decide)
    · intro fits
      rw [hfield, field_of_fits hgiven fits hsize]
      rfl

/-- The argument field holds a value exactly when it can hold it as it is. -/
private theorem args_value_iff (hgiven : given hm.query "args" = .value v) :
    queryField "" SSE_ARGS_MAX (queryVar hm "args" SSE_ARGS_MAX) = v ∧ v ≠ [] ↔
      Fits SSE_ARGS_MAX v := by
  constructor
  · rintro ⟨hfield, hne⟩
    refine ⟨hne, ?_, ?_⟩
    · intro hzero
      rw [← hfield] at hzero
      unfold queryField at hzero
      split at hzero
      · cases hzero
      · cases hzero
      · have hstring := List.mem_of_mem_take hzero
        exact absurd (List.mem_takeWhile_imp hstring) (by decide)
    · rw [← hfield]
      exact queryField_length _ (by decide)
  · intro fits
    exact ⟨field_of_fits hgiven fits (Nat.le_refl _), fits.1⟩

end Fields

section Calls

variable {hm : HttpMessage} {lib symbol : Bytes} {p : PluginCall}

/-- Up to the function of the plugin, the input decides nothing: none is as good as any. -/
def NeverInTheWay (input : Option Bytes) : Prop :=
  ∀ (L : Loader Nat) (mem : Bool) (cache : DlCache Nat) (path func v : Bytes),
    (callLocalDynLibffi L mem cache path func input).invoked.length =
      (callLocalDynLibffi L mem cache path func (some v)).invoked.length

private theorem input_never_in_the_way (input : Option Bytes) : NeverInTheWay input := by
  intro L mem cache path func v
  unfold callLocalDynLibffi
  dsimp only
  cases (dlGet L cache path).1 with
  | none => rfl
  | some h =>
    dsimp only
    split
    · rfl
    · split
      · rfl
      · rfl

/-- A call uses the parameters of the request as they are. -/
structure Faithful (hm : HttpMessage) (p : PluginCall) : Prop where
  lib : (given hm.query "lib").asked (ascii "sse_demo") = some p.lib
  symbol : (given hm.query "symbol").asked (ascii "sse_next") = some p.symbol
  args : (given hm.query "args" = .absent ∧ NeverInTheWay p.input.bytes) ∨
    ∃ v, given hm.query "args" = .value v ∧ p.input = .args (some v)

/-- A client goes by a number that is given: it is read as a whole and its value is taken. -/
def Heeded (hm : HttpMessage) (name : String) (len : Nat) (absent : Prop) (taken : Int → Prop) : Prop :=
  match given hm.query name with
  | .absent => absent
  | .malformed => False
  | .value v => readVar hm name len = some v ∧ taken (atoi v)

/-- A client goes by the parameters `once` and `interval_ms`; the first one counts in the generic mode
only. -/
structure Heeds (hm : HttpMessage) (cl : SseClient Nat) : Prop where
  once : Heeded hm "once" 8 (cl.once = false) fun n =>
    cl.once = decide (n ≠ 0) ∧ (n ≠ 0 → cl.custom = true)
  interval : Heeded hm "interval_ms" 32 (cl.intervalMs = SSE_DEFAULT_INTERVAL_MS) fun n =>
    cl.intervalMs = min SSE_MAX_INTERVAL_MS (max SSE_MIN_INTERVAL_MS n)

/-- The parameters of a request that the handler can use as they are. -/
structure Usable (hm : HttpMessage) : Prop where
  lib : (given hm.query "lib").Fits 64
  symbol : (given hm.query "symbol").Fits 128
  args : (given hm.query "args").Fits SSE_ARGS_MAX
  once : (given hm.query "once").Fits 8
  interval : (given hm.query "interval_ms").Fits 32
  plain : (given hm.query "lib").asked (ascii "sse_demo") = some (ascii "sse_demo") →
    (given hm.query "symbol").asked (ascii "sse_next") = some (ascii "sse_next") →
      given hm.query "args" = .absent ∧ ∀ v, given hm.query "once" = .value v → atoi v = 0

/-- Either a request is refused, or its connection is served with its parameters as they are: the
calls use the ones that are meant for them, and the handler goes by the other two. -/
def ServedAsAsked (hm : HttpMessage) : Prop :=
  ∀ (env : Env) (t : Table Nat) (c : Nat),
    (∃ code json, (evHandlerSse env t c hm).2 = .refused code json ∧
      (code = 405 ∨ code = 400 ∨ code = 503)) ∨
    ∃ lib symbol, Accepted env t hm lib symbol ∧ Heeds hm (newClient env c hm lib symbol) ∧
      ∀ envs, ∀ p ∈ calls (life env envs (newClient env c hm lib symbol)), Faithful hm p

/-- The request itself gives no reason to refuse it. -/
def Wellformed (hm : HttpMessage) : Prop :=
  hm.method = ascii "GET" ∧
    (sseAccepts (queryVar hm "lib" SSE_ARGS_MAX) (queryVar hm "symbol" SSE_ARGS_MAX)).isSome = true

private theorem newClient_args (env : Env) (c : Nat) (hm : HttpMessage) (lib symbol : Bytes) :
    (newClient env c hm lib symbol).args =
      queryField "" SSE_ARGS_MAX (queryVar hm "args" SSE_ARGS_MAX) := rfl

/-- The names of a request that is accepted are the ones it asks for exactly when they fit. -/
private theorem accepted_asks {env : Env} {t : Table Nat} (accepted : Accepted env t hm lib symbol) :
    ((given hm.query "lib").asked (ascii "sse_demo") = some lib ↔
      (given hm.query "lib").Fits 64) ∧
    ((given hm.query "symbol").asked (ascii "sse_next") = some symbol ↔
      (given hm.query "symbol").Fits 128) := by
  obtain ⟨hlib, hsymbol⟩ := sseAccepts_fields accepted.names
  obtain ⟨hlibname, hsymbolname⟩ := sseAccepts_some accepted.names
  have hlength : lib.length < 64 := by
    rw [hlib]
    exact queryField_length _ (by decide)
  exact ⟨asked_name_iff hlib hlibname hlength (by decide),
    asked_name_iff hsymbol hsymbolname (accepted_symbol_length accepted.names) (by decide)⟩

private theorem default_of_plain {env : Env} {c : Nat}
    (h : (newClient env c hm lib symbol).custom = false) :
    lib = ascii "sse_demo" ∧ symbol = ascii "sse_next" := by
  by_contra hgeneric
  exact Bool.false_ne_true (h.symm.trans ((newClient_custom env c hm lib symbol).mpr hgeneric))

private theorem faithful_of_usable {env : Env} {t : Table Nat} (c : Nat)
    (accepted : Accepted env t hm lib symbol) (usable : Usable hm)
    (h : Calls (newClient env c hm lib symbol) p) : Faithful hm p := by
  obtain ⟨hlib, hsymbol⟩ := accepted_asks accepted
  have hasklib := hlib.mpr usable.lib
  have hasksymbol := hsymbol.mpr usable.symbol
  rcases h with ⟨hcustom, rfl⟩ | ⟨hplain, n, rfl⟩
  · refine ⟨hasklib, hasksymbol, ?_⟩
    have hargs := usable.args
    cases hgiven : given hm.query "args" with
    | absent => exact Or.inl ⟨rfl, input_never_in_the_way _⟩
    | malformed =>
      rw [hgiven] at hargs
      exact absurd hargs id
    | value v =>
      rw [hgiven] at hargs
      obtain ⟨hfield, hne⟩ := (args_value_iff hgiven).mpr hargs
      refine Or.inr ⟨v, rfl, ?_⟩
      rw [customCall, newClient_args, hfield, if_neg hne]
  · obtain ⟨rfl, rfl⟩ := default_of_plain hplain
    exact ⟨hasklib, hasksymbol,
      Or.inl ⟨(usable.plain hasklib hasksymbol).1, input_never_in_the_way _⟩⟩

private theorem intervalOf_value {v : Bytes} (hgiven : given hm.query "interval_ms" = .value v)
    (fits : Fits 32 v) :
    intervalOf hm = min SSE_MAX_INTERVAL_MS (max SSE_MIN_INTERVAL_MS (atoi v)) := by
  rw [intervalOf, queryVar_fits hgiven fits (Nat.le_refl _)]
  dsimp only
  rw [cString_plain fits.2.1]
  split <;> split <;> omega

private theorem newClient_interval (env : Env) (c : Nat) (hm : HttpMessage) (lib symbol : Bytes) :
    Heeded hm "interval_ms" 32
      ((newClient env c hm lib symbol).intervalMs = SSE_DEFAULT_INTERVAL_MS) (fun n =>
        (newClient env c hm lib symbol).intervalMs =
          min SSE_MAX_INTERVAL_MS (max SSE_MIN_INTERVAL_MS n)) ↔
      (given hm.query "interval_ms").Fits 32 := by
  rw [Heeded]
  cases hgiven : given hm.query "interval_ms" with
  | absent =>
    refine iff_of_true ?_ trivial
    change intervalOf hm = _
    rw [intervalOf, queryVar_none (fun v hv => by cases hgiven.symm.trans hv)]
  | malformed => exact Iff.rfl
  | value v =>
    dsimp only
    rw [readVar_iff hgiven]
    exact ⟨And.left, fun fits => ⟨fits, intervalOf_value hgiven fits⟩⟩

private theorem newClient_heeds_once (env : Env) (c : Nat) (hm : HttpMessage) (lib symbol : Bytes) :
    Heeded hm "once" 8 ((newClient env c hm lib symbol).once = false) (fun n =>
        (newClient env c hm lib symbol).once = decide (n ≠ 0) ∧
          (n ≠ 0 → (newClient env c hm lib symbol).custom = true)) ↔
      (given hm.query "once").Fits 8 ∧ (lib = ascii "sse_demo" ∧ symbol = ascii "sse_next" →
        ∀ v, given hm.query "once" = .value v → atoi v = 0) := by
  have honce : (newClient env c hm lib symbol).once =
      (queryVar hm "once" 8).any fun q => atoi (cString q) ≠ 0 := rfl
  rw [Heeded, newClient_custom, honce]
  cases hgiven : given hm.query "once" with
  | absent =>
    refine iff_of_true ?_ ⟨trivial, fun _ v hv => by cases hv⟩
    dsimp only
    rw [queryVar_none (fun v hv => by cases hgiven.symm.trans hv)]
    rfl
  | malformed => exact iff_of_false id And.left
  | value v =>
    dsimp only
    rw [readVar_iff hgiven]
    refine and_congr_right fun fits => ?_
    rw [queryVar_fits hgiven fits (Nat.le_refl _), Option.any_some, cString_plain fits.2.1]
    constructor
    · rintro ⟨-, hgeneric⟩ hdefault w hw
      obtain rfl := Given.value.inj hw
      exact not_not.mp fun hne => hgeneric hne hdefault
    · exact fun hzero => ⟨rfl, fun hne hdefault => hne (hzero hdefault v rfl)⟩

/-- The handler goes by both numbers exactly when they fit and a stream for once is in the generic
mode. -/
private theorem newClient_heeds (env : Env) (c : Nat) (hm : HttpMessage) (lib symbol : Bytes) :
    Heeds hm (newClient env c hm lib symbol) ↔
      ((given hm.query "once").Fits 8 ∧ (lib = ascii "sse_demo" ∧ symbol = ascii "sse_next" →
        ∀ v, given hm.query "once" = .value v → atoi v = 0)) ∧
      (given hm.query "interval_ms").Fits 32 := by
  rw [← newClient_heeds_once env c hm lib symbol, ← newClient_interval env c hm lib symbol]
  exact ⟨fun heeds => ⟨heeds.once, heeds.interval⟩, fun h => ⟨h.1, h.2⟩⟩

private theorem heeds_of_usable (env : Env) {t : Table Nat} (c : Nat)
    (accepted : Accepted env t hm lib symbol)
    (usable : Usable hm) : Heeds hm (newClient env c hm lib symbol) := by
  obtain ⟨hlib, hsymbol⟩ := accepted_asks accepted
  have hasklib := hlib.mpr usable.lib
  have hasksymbol := hsymbol.mpr usable.symbol
  refine (newClient_heeds env c hm lib symbol).mpr ⟨⟨usable.once, ?_⟩, usable.interval⟩
  rintro ⟨rfl, rfl⟩
  exact (usable.plain hasklib hasksymbol).2

private theorem usable_of_faithful {env : Env} {t : Table Nat} (c : Nat)
    (accepted : Accepted env t hm lib symbol) (heeds : Heeds hm (newClient env c hm lib symbol))
    (h : Faithful hm p) (hcalls : Calls (newClient env c hm lib symbol) p) : Usable hm := by
  obtain ⟨hlib, hsymbol⟩ := accepted_asks accepted
  have hnames : p.lib = lib ∧ p.symbol = symbol := by
    rcases hcalls with ⟨_, rfl⟩ | ⟨hplain, n, rfl⟩
    · exact ⟨rfl, rfl⟩
    · obtain ⟨rfl, rfl⟩ := default_of_plain hplain
      exact ⟨rfl, rfl⟩
  obtain ⟨⟨honce, hzero⟩, hinterval⟩ := (newClient_heeds env c hm lib symbol).mp heeds
  obtain ⟨hasklib, hasksymbol, hargs⟩ := h
  rw [hnames.1] at hasklib
  rw [hnames.2] at hasksymbol
  refine ⟨hlib.mp hasklib, hsymbol.mp hasksymbol, ?_, honce, hinterval, ?_⟩
  · rcases hargs with ⟨hgiven, _⟩ | ⟨v, hgiven, hinput⟩
    · rw [hgiven]
      exact trivial
    · rw [hgiven]
      rcases hcalls with ⟨_, rfl⟩ | ⟨_, n, rfl⟩
      · rw [customCall, newClient_args] at hinput
        dsimp only at hinput
        split at hinput
        · cases hinput
        · rename_i hne
          have hfield := Option.some.inj (Input.args.inj hinput)
          exact (args_value_iff hgiven).mp ⟨hfield, hfield ▸ hne⟩
      · cases hinput
  · intro hdefaultlib hdefaultsymbol
    rw [hasklib] at hdefaultlib
    rw [hasksymbol] at hdefaultsymbol
    have hdefault := And.intro (Option.some.inj hdefaultlib) (Option.some.inj hdefaultsymbol)
    refine ⟨?_, hzero hdefault⟩
    rcases hcalls with ⟨hcustom, rfl⟩ | ⟨_, n, rfl⟩
    · exact absurd hdefault ((newClient_custom env c hm lib symbol).mp hcustom)
    · rcases hargs with ⟨hgiven, _⟩ | ⟨v, _, hinput⟩
      · exact hgiven
      · cases hinput

/-- The handler refuses the request, or a life begins. -/
private theorem refused_or_accepted (env : Env) (t : Table Nat) (c : Nat) (hm : HttpMessage) :
    (∃ code json, (evHandlerSse env t c hm).2 = .refused code json ∧
      (code = 405 ∨ code = 400 ∨ code = 503)) ∨ ∃ lib symbol, Accepted env t hm lib symbol := by
  rcases evHandlerSse_cases env t c hm with ⟨code, json, heq, hcode, _⟩ | ⟨_, _, _, _, heq, _⟩
  · rw [heq]
    exact Or.inl ⟨code, json, rfl, hcode⟩
  · obtain ⟨_, lib, symbol, accepted, _⟩ := accepted_of_stream heq
    exact Or.inr ⟨lib, symbol, accepted⟩

/-- The first call shows what the handler has made of the parameters. -/
private theorem usable_of_served (h : ServedAsAsked hm) (wellformed : Wellformed hm) : Usable hm := by
  obtain ⟨hget, hnames⟩ := wellformed
  obtain ⟨⟨lib, symbol⟩, hnames⟩ := Option.isSome_iff_exists.mp hnames
  have haccepted : Accepted sampleEnv (fun _ => (SseClient.zero : SseClient Nat)) hm lib symbol :=
    ⟨hget, hnames, rfl, by decide⟩
  rcases h sampleEnv (fun _ => SseClient.zero) 0 with
    ⟨code, json, hrefused, _⟩ | ⟨lib', symbol', haccepted', heeds, hfaithful⟩
  · obtain ⟨head, event, hstream⟩ := stream_of_accepted 0 haccepted
    rw [hstream] at hrefused
    cases hrefused
  · obtain ⟨p, hp⟩ := sendCall_open (rfl : (newClient sampleEnv 0 hm lib' symbol').done = false)
    have hmem : p ∈ calls (life sampleEnv [] (newClient sampleEnv 0 hm lib' symbol')) := by
      rw [life, calls_cons, sendVisit, hp]
      exact List.mem_cons_self
    exact usable_of_faithful 0 haccepted' heeds (hfaithful [] p hmem) (life_calls _ _ _ p hmem)

/-- A request that is not refused for itself is served as it asks exactly when the handler can use its
parameters as they are. -/
theorem served_as_asked_iff (hm : HttpMessage) :
    ServedAsAsked hm ↔ (Wellformed hm → Usable hm) := by
  constructor
  · intro h wellformed
    exact usable_of_served h wellformed
  · intro h env t c
    refine (refused_or_accepted env t c hm).imp_right ?_
    rintro ⟨lib, symbol, accepted⟩
    have usable := h ⟨accepted.get, by rw [accepted.names]; rfl⟩
    refine ⟨lib, symbol, accepted, heeds_of_usable env c accepted usable, fun envs p hp => ?_⟩
    exact faithful_of_usable c accepted usable (life_calls _ _ _ p hp)

/-- The arguments end in the middle of an escape. -/
def tornQuery : Bytes := ascii "lib=sys_info&symbol=post_file_exists&args=100%"

private theorem tornQuery_plain : 0 ∉ tornQuery := by decide

/-- The plugin is called without them. -/
theorem torn_args_dropped : ¬ServedAsAsked (getRequest tornQuery [] tornQuery_plain headers_nil) := by
  intro h
  have hwellformed : Wellformed (getRequest tornQuery [] tornQuery_plain headers_nil) :=
    ⟨by decide, by decide +kernel⟩
  have hargs := (usable_of_served h hwellformed).args
  have hgiven : given (getRequest tornQuery [] tornQuery_plain headers_nil).query "args" =
      .malformed := by decide +kernel
  rw [hgiven] at hargs
  exact hargs

end Calls

end Cyctron.Sse.Request
