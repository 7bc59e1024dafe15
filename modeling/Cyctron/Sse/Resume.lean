/- Cyctron/Sse/Resume
   digest: The numbers of the events on a connection, and the header that they go on from. -/

import Cyctron.Json.Escape
import Cyctron.Mongoose.Decimal
import Cyctron.Mongoose.Object
import Cyctron.Sse.Life

set_option autoImplicit false
set_option relaxedAutoImplicit false

namespace Cyctron.Sse.Resume

open Cyctron.Base.CString Cyctron.Base.Number Cyctron.Http.Message Cyctron.Mongoose.Decimal
open Cyctron.Json.Build (compact decimalInt_length decimalInt_shape number_decimalInt object_compact
  padded_self)
open Cyctron.Json.Escape (body_plain)
open Cyctron.Json.Text (Number Object lookup)
open Cyctron.Mongoose.Json (mgJsonGetStr mgJsonGetTok)
open Cyctron.Mongoose.Object (Readable mgJsonGetStr_object mgJsonGetTok_object)
open Cyctron.Mongoose.Query Cyctron.Plugin.Path
open Cyctron.Sse.Format Cyctron.Sse.Life Cyctron.Sse.Model Cyctron.Sse.Table

universe u

/-- The text of an event begins with its number. -/
def IdOf (text : Bytes) (id : Int) : Prop :=
  ∃ rest, text = ascii "id: " ++ (decimalInt id ++ 10 :: rest)

/-- The number that a client counts by. -/
def counter {κ : Type u} (cl : SseClient κ) : Int := if cl.custom then cl.seq else cl.lastId

section Texts

variable {id : Int} {name data text : Bytes}

private theorem idOf_event (id : Int) (name data : Option Bytes) : IdOf (eventText id name data) id :=
  ⟨_, rfl⟩

private theorem decimalInt_line (id : Int) : 10 ∉ decimalInt id := by
  intro hmem
  rcases (Json.Build.decimalInt_shape id).2 10 hmem with hdigit | hsign
  · cases hdigit
  · cases hsign

private theorem idOf_unique {i j : Int} (hi : IdOf text i) (hj : IdOf text j) : i = j := by
  obtain ⟨rest, rfl⟩ := hi
  obtain ⟨rest', heq⟩ := hj
  have hline := List.append_cancel_left heq
  have hfront : ∀ (k : Int) (r : Bytes), (decimalInt k ++ 10 :: r).takeWhile (· ≠ 10) =
      decimalInt k := by
    intro k r
    rw [List.takeWhile_append_of_pos, List.takeWhile_cons_of_neg (by decide), List.append_nil]
    intro c hc
    exact decide_eq_true fun heq => decimalInt_line k (heq ▸ hc)
  apply decimalInt_injective
  rw [← hfront i rest, hline, hfront j rest']

end Texts

section Climbs

variable {κ : Type u} {env : Env} {cl cl' cl'' : SseClient κ} {ids ids' : List Int}

/-- A client goes on from one state to another while events with these numbers are sent. -/
structure Climbs (cl cl' : SseClient κ) (ids : List Int) : Prop where
  custom : cl'.custom = cl.custom
  symbol : cl'.symbol = cl.symbol
  increasing : (counter cl :: ids).Pairwise (· < ·)
  reached : ∀ id ∈ counter cl :: ids, id ≤ counter cl'
  resume : cl.custom = false → cl'.lastId = ids.getLast?.getD cl.lastId
  first : cl.custom = true → cl.symbol.length < 128 → cl.seq = 0 →
    (ids = [] ∧ cl'.seq = 0) ∨ ids.head? = some 1

/-- No event is sent, and nothing changes that numbers depend on. -/
theorem Climbs.quiet (custom : cl'.custom = cl.custom) (symbol : cl'.symbol = cl.symbol)
    (lastId : cl'.lastId = cl.lastId) (seq : cl'.seq = cl.seq) : Climbs cl cl' [] where
  custom := custom
  symbol := symbol
  increasing := List.pairwise_singleton _ _
  reached := by
    rw [List.forall_mem_singleton, counter, counter, custom, lastId, seq]
  resume _ := lastId
  first _ _ hseq := Or.inl ⟨rfl, seq.trans hseq⟩

theorem Climbs.trans (h : Climbs cl cl' ids) (h' : Climbs cl' cl'' ids') :
    Climbs cl cl'' (ids ++ ids') where
  custom := h'.custom.trans h.custom
  symbol := h'.symbol.trans h.symbol
  increasing := by
    rw [← List.cons_append, List.pairwise_append]
    refine ⟨h.increasing, (List.pairwise_cons.mp h'.increasing).2, fun a ha b hb => ?_⟩
    exact Int.lt_of_le_of_lt (h.reached a ha) ((List.pairwise_cons.mp h'.increasing).1 b hb)
  reached := by
    intro id hid
    rw [← List.cons_append, List.mem_append] at hid
    rcases hid with hid | hid
    · exact Int.le_trans (h.reached id hid) (h'.reached _ List.mem_cons_self)
    · exact h'.reached id (List.mem_cons_of_mem _ hid)
  resume hcustom := by
    rw [h'.resume (h.custom.trans hcustom), h.resume hcustom, List.getLast?_append]
    cases ids'.getLast? with
    | none => rfl
    | some id => rfl
  first hcustom hsymbol hseq := by
    rcases h.first hcustom hsymbol hseq with ⟨rfl, hzero⟩ | hhead
    · rw [List.nil_append]
      exact h'.first (h.custom.trans hcustom) (by rw [h.symbol]; exact hsymbol) hzero
    · right
      rw [List.head?_append, hhead]
      rfl

private theorem counter_custom (h : cl.custom = true) : counter cl = cl.seq := if_pos h

private theorem counter_next (h : cl.custom = false) : counter cl = cl.lastId := by
  rw [counter, h, if_neg Bool.false_ne_true]

/-- One number more. -/
private theorem reached_pair {a b : Int} (h : a ≤ b) : ∀ k ∈ [a, b], k ≤ b :=
  List.forall_mem_cons.mpr ⟨h, List.forall_mem_singleton.mpr (Int.le_refl b)⟩

theorem Climbs.next {id : Int} (h : cl.custom = false) (greater : cl.lastId < id) :
    Climbs cl { cl with lastId := id } [id] := by
  have hnew : counter { cl with lastId := id } = id := counter_next h
  refine ⟨rfl, rfl, ?_, ?_, fun _ => rfl, fun hcustom => ?_⟩
  · rw [counter_next h]
    exact List.pairwise_pair.mpr greater
  · rw [counter_next h, hnew]
    exact reached_pair (Int.le_of_lt greater)
  · rw [h] at hcustom
    cases hcustom

theorem Climbs.number {done : Bool} (h : cl.custom = true) :
    Climbs cl { cl with seq := cl.seq + 1, done := done } [cl.seq + 1] := by
  have hnew : counter { cl with seq := cl.seq + 1, done := done } = cl.seq + 1 := counter_custom h
  have hless : cl.seq < cl.seq + 1 := Int.lt_succ cl.seq
  refine ⟨rfl, rfl, ?_, ?_, fun hcustom => ?_, fun _ _ hseq => Or.inr ?_⟩
  · rw [counter_custom h]
    exact List.pairwise_pair.mpr hless
  · rw [counter_custom h, hnew]
    exact reached_pair (Int.le_of_lt hless)
  · rw [h] at hcustom
    cases hcustom
  · rw [hseq]
    rfl

/-- A number is lost with an event that does not fit, which the first one always does. -/
theorem Climbs.lost {data : Bytes} (h : cl.custom = true) (hdata : data.length < SSE_DATA_MAX)
    (hnone : sseFormatEvent SSE_EVENT_BUF (cl.seq + 1) (some cl.symbol) (some data) = none) :
    Climbs cl { cl with seq := cl.seq + 1 } [] := by
  have hnew : counter { cl with seq := cl.seq + 1 } = cl.seq + 1 := counter_custom h
  refine ⟨rfl, rfl, List.pairwise_singleton _ _, ?_, fun _ => rfl, fun _ hsymbol hseq => ?_⟩
  · rw [List.forall_mem_singleton, counter_custom h, hnew]
    exact Int.le_of_lt (Int.lt_succ cl.seq)
  · rw [hseq] at hnone
    exact absurd hnone (format_first hsymbol hdata)

/-- A send climbs to the number of its event. -/
private theorem sendEvent_climbs (env : Env) (cl : SseClient κ) :
    ∃ ids, List.Forall₂ IdOf (sseSendEvent env cl).2.toList ids ∧
      Climbs cl (sseSendEvent env cl).1 ids := by
  cases hdone : cl.done with
  | true =>
    rw [sendEvent_done env hdone]
    exact ⟨[], .nil, .quiet rfl rfl rfl rfl⟩
  | false =>
    cases hcustom : cl.custom with
    | false =>
      rw [sendEvent_next hdone hcustom]
      rcases sendNext_cases env cl with heq | ⟨id, name, data, hgreater, heq⟩
      · rw [heq]
        exact ⟨[], .nil, .quiet rfl rfl rfl rfl⟩
      · rw [heq]
        exact ⟨[id], .cons (idOf_event id _ _) .nil, .next hcustom hgreater⟩
    | true =>
      rw [sendEvent_custom hdone hcustom]
      by_cases hcall : Succeeds env (customCall cl)
      · obtain ⟨data, hdata, ⟨hnone, heq⟩ | heq⟩ := sendCustom_succeeds hcall
        · rw [heq]
          exact ⟨[], .nil, .lost hcustom hdata hnone⟩
        · rw [heq]
          exact ⟨[cl.seq + 1], .cons (idOf_event _ _ _) .nil, .number hcustom⟩
      · rw [sendCustom_fails hcall]
        exact ⟨[], .nil, .quiet rfl rfl rfl rfl⟩

private theorem pollVisit_climbs (env : Env) (cl : SseClient κ) :
    ∃ ids, List.Forall₂ IdOf (pollVisit env cl).event.toList ids ∧
      Climbs cl (pollClient env cl).1 ids := by
  obtain ⟨ping, hping⟩ := pollClient_client env cl
  rw [← pull_event, hping]
  unfold pull
  by_cases hdue : Due env cl
  · rw [if_pos hdue]
    obtain ⟨ids, hids, hclimbs⟩ := sendEvent_climbs env { cl with lastPollMs := env.now }
    exact ⟨ids, hids, hclimbs.custom, hclimbs.symbol, hclimbs.increasing, hclimbs.reached,
      hclimbs.resume, hclimbs.first⟩
  · rw [if_neg hdue]
    exact ⟨[], .nil, .quiet rfl rfl rfl rfl⟩

private theorem pollVisits_climbs (envs : List Env) (cl : SseClient κ) :
    ∃ ids, List.Forall₂ IdOf (events (pollVisits envs cl)) ids ∧ Climbs cl (polled envs cl) ids := by
  induction envs generalizing cl with
  | nil => exact ⟨[], .nil, .quiet rfl rfl rfl rfl⟩
  | cons env envs ih =>
    obtain ⟨ids, hids, hclimbs⟩ := pollVisit_climbs env cl
    obtain ⟨ids', hids', hclimbs'⟩ := ih (pollClient env cl).1
    refine ⟨ids ++ ids', ?_, hclimbs.trans hclimbs'⟩
    rw [pollVisits, events_cons]
    exact List.rel_append hids hids'

/-- Along a life the numbers climb. -/
private theorem life_climbs (env : Env) (envs : List Env) (cl : SseClient κ) :
    ∃ ids, List.Forall₂ IdOf (events (life env envs cl)) ids ∧
      Climbs cl (polled envs (sseSendEvent env cl).1) ids := by
  obtain ⟨ids, hids, hclimbs⟩ := sendEvent_climbs env cl
  obtain ⟨ids', hids', hclimbs'⟩ := pollVisits_climbs envs (sseSendEvent env cl).1
  refine ⟨ids ++ ids', ?_, hclimbs.trans hclimbs'⟩
  rw [life, events_cons]
  exact List.rel_append hids hids'

end Climbs

section Header

variable {hm : HttpMessage}

/-- The number that the whole header stands for, not less than zero. -/
def headerNumber (hm : HttpMessage) : Int :=
  match mgHttpGetHeader hm "Last-Event-ID" with
  | none => 0
  | some v => max 0 (strtol v)

private theorem header_plain {name : String} {v : Bytes} (h : mgHttpGetHeader hm name = some v) :
    0 ∉ v := by
  obtain ⟨header, hfind, rfl⟩ := Option.map_eq_some_iff.mp h
  exact hm.headers_plain header (List.mem_of_find?_eq_some hfind)

/-- The handler reads the front of the header, which is never a greater number. -/
private theorem lastEventId_le (hm : HttpMessage) : lastEventId hm ≤ headerNumber hm := by
  unfold lastEventId headerNumber
  cases hv : mgHttpGetHeader hm "Last-Event-ID" with
  | none => exact Int.le_refl 0
  | some v =>
    cases v with
    | nil => exact Int.le_max_left 0 _
    | cons c v =>
      have hfront : (c :: v).take 31 <+: c :: v := List.take_prefix 31 _
      have hplain : 0 ∉ (c :: v).take 31 := fun hmem => header_plain hv (hfront.subset hmem)
      dsimp only
      rw [cString_plain hplain]
      exact strtol_prefix hfront

private theorem lastEventId_lt (hm : HttpMessage) : 0 ≤ lastEventId hm ∧ lastEventId hm < 2 ^ 63 := by
  have hbound : ∀ v : Bytes, 0 ≤ max 0 (strtol v) ∧ max 0 (strtol v) < 2 ^ 63 := by
    intro v
    have hle := (strtol_bounds v).2
    omega
  unfold lastEventId
  split
  · decide
  · decide
  · exact hbound _

end Header

section Offers

/-- The output of a plugin that has an event with this number, and nothing to say of it. -/
def offer (id : Int) : Bytes := compact [(ascii "id", decimalInt id)]

/-- A plugin that offers an event with this number to any call. -/
def offering (id : Int) : Env :=
  { sampleEnv with call := fun _ _ _ => (0, some (offer id)), getLong := fun _ _ _ => id }

variable {κ : Type u} {cl : SseClient κ} {id : Int}

private theorem offer_object (id : Int) :
    Object (Number Readable) 0 [(ascii "id", decimalInt id)] (offer id) :=
  object_compact (.one (body_plain (by decide)) (padded_self (.number (number_decimalInt id))))

private theorem offer_text (id : Int) :
    offer id = ascii "\x7b\"id\":" ++ (decimalInt id ++ ascii "\x7d") := by
  have hopen : ascii "\x7b\"id\":" = 123 :: 34 :: (ascii "id" ++ [34, 58]) := by decide
  rw [offer, compact, Json.Build.joined, Json.Build.memberText, hopen, Json.Build.close_text]
  simp only [List.cons_append, List.append_assoc, List.nil_append]

private theorem offer_length (small : id.natAbs < 10 ^ 19) : (offer id).length < 2 ^ 31 := by
  have hid := decimalInt_length small (by decide)
  have hopen : (ascii "\x7b\"id\":").length = 6 := by decide
  have hclose : (ascii "\x7d").length = 1 := by decide
  rw [offer_text, List.length_append, List.length_append, hopen, hclose]
  omega

private theorem offer_plain (id : Int) : 0 ∉ offer id := by
  rw [offer_text, List.mem_append, List.mem_append]
  rintro (hmem | hmem | hmem)
  · exact absurd hmem (by decide)
  · rcases (decimalInt_shape id).2 0 hmem with hdigit | hsign
    · cases hdigit
    · cases hsign
  · exact absurd hmem (by decide)

private theorem offer_lookup {key : Bytes} (h : ascii "id" ≠ key) :
    lookup key [(ascii "id", decimalInt id)] = none := by
  rw [lookup, List.find?_cons_of_neg]
  · rfl
  · exact fun heq => h (of_decide_eq_true heq)

/-- An offer with a greater number is sent. -/
private theorem offer_sent (greater : cl.lastId < id) (small : id.natAbs < 10 ^ 19) :
    sseSendNext (offering id) cl = ({ cl with lastId := id },
      some (eventText id (some (ascii "message")) (some (ascii "null")))) := by
  have hshort := offer_length small
  have hname : (mgJsonGetStr (offer id) "$.event").getD (ascii "message") = ascii "message" := by
    have hpath : ascii "$.event" = 36 :: 46 :: ascii "event" := by decide
    rw [mgJsonGetStr_object hpath (offer_object id) (by decide) hshort,
      offer_lookup (by decide)]
    rfl
  have htok : (mgJsonGetTok (offer id) "$.data").take (SSE_DATA_MAX - 1) = [] := by
    have hpath : ascii "$.data" = 36 :: 46 :: ascii "data" := by decide
    rw [mgJsonGetTok_object hpath (offer_object id) (by decide) hshort, offer_lookup (by decide)]
    rfl
  have hlength : (eventText id (some (ascii "message")) (some (ascii "null"))).length ≤ 53 := by
    have hid := decimalInt_length small (by decide)
    have hfront : (ascii "id: ").length = 4 := by decide
    have hevent : (ascii "\nevent: ").length = 8 := by decide
    have hmessage : (eventName (some (ascii "message"))).length = 7 := by decide
    have hline : (ascii "\ndata: ").length = 7 := by decide
    have hnull : (eventData (some (ascii "null"))).length = 4 := by decide
    have hend : (ascii "\n\n").length = 2 := by decide
    rw [eventText]
    simp only [List.length_append, hfront, hevent, hmessage, hline, hnull, hend]
    omega
  have hformat : sseFormatEvent SSE_EVENT_BUF id (some (ascii "message")) (some (ascii "null")) =
      some (eventText id (some (ascii "message")) (some (ascii "null"))) := by
    unfold sseFormatEvent SSE_EVENT_BUF
    rw [if_neg (by decide)]
    dsimp only
    rw [if_neg (by omega)]
  unfold sseSendNext
  dsimp only [offering]
  rw [cString_plain (offer_plain id), if_neg (not_not.mpr rfl), if_neg (Int.not_le.mpr greater),
    hname, htok, if_pos rfl, hformat]

end Offers

section Numbers

/-- The numbers of the events that are sent while a client goes on from one state to another. -/
structure Numbered (hm : HttpMessage) (lib symbol : Bytes) (cl cl' : SseClient Nat)
    (ids : List Int) : Prop where
  increasing : ids.Pairwise (· < ·)
  fromOne : Generic lib symbol → ids = [] ∨ ids.head? = some 1
  afterHeader : ¬Generic lib symbol → ∀ id ∈ ids, headerNumber hm < id
  resume : ¬Generic lib symbol → cl'.lastId = ids.getLast?.getD cl.lastId

/-- On every connection that a request is accepted on, whatever polls follow. -/
def IdsIncrease (hm : HttpMessage) : Prop :=
  ∀ (env : Env) (t : Table Nat) (c : Nat) (lib symbol : Bytes) (envs : List Env),
    Accepted env t hm lib symbol →
      ∃ ids, List.Forall₂ IdOf (events (life env envs (newClient env c hm lib symbol))) ids ∧
        Numbered hm lib symbol (newClient env c hm lib symbol)
          (polled envs (sseSendEvent env (newClient env c hm lib symbol)).1) ids

/-- A request for the default mode. -/
def Default (hm : HttpMessage) : Prop :=
  hm.method = ascii "GET" ∧
    sseAccepts (queryVar hm "lib" SSE_ARGS_MAX) (queryVar hm "symbol" SSE_ARGS_MAX) =
      some (ascii "sse_demo", ascii "sse_next")

variable {hm : HttpMessage}

/-- The numbers of a default request begin after the front of its header. -/
private theorem numbered_of_accepted {env : Env} {t : Table Nat} {lib symbol : Bytes} (c : Nat)
    (envs : List Env) (accepted : Accepted env t hm lib symbol)
    (header : Default hm → lastEventId hm = headerNumber hm) :
    ∃ ids, List.Forall₂ IdOf (events (life env envs (newClient env c hm lib symbol))) ids ∧
      Numbered hm lib symbol (newClient env c hm lib symbol)
        (polled envs (sseSendEvent env (newClient env c hm lib symbol)).1) ids := by
  obtain ⟨ids, hids, hclimbs⟩ := life_climbs env envs (newClient env c hm lib symbol)
  obtain ⟨hfirst, hincreasing⟩ := List.pairwise_cons.mp hclimbs.increasing
  have hplain : ¬Generic lib symbol → (newClient env c hm lib symbol).custom = false := by
    intro hplain
    rw [← newClient_custom env c hm lib symbol, Bool.not_eq_true] at hplain
    exact hplain
  refine ⟨ids, hids, hincreasing, ?_, ?_, fun h => hclimbs.resume (hplain h)⟩
  · intro hgeneric
    have hcustom := (newClient_custom env c hm lib symbol).mpr hgeneric
    exact (hclimbs.first hcustom (accepted_symbol_length accepted.names) rfl).imp_left And.left
  · intro h
    obtain ⟨rfl, rfl⟩ := not_not.mp h
    rw [← header ⟨accepted.get, accepted.names⟩]
    rw [counter_next (hplain h)] at hfirst
    exact hfirst

/-- A plugin that offers the next number shows which front of the header was read. -/
private theorem header_of_increase (h : IdsIncrease hm) (hdefault : Default hm) :
    lastEventId hm = headerNumber hm := by
  by_contra hne
  have hless : lastEventId hm < headerNumber hm := lt_of_le_of_ne (lastEventId_le hm) hne
  obtain ⟨hzero, hbound⟩ := lastEventId_lt hm
  have haccepted : Accepted (offering (lastEventId hm + 1)) (fun _ => (SseClient.zero : SseClient Nat))
      hm (ascii "sse_demo") (ascii "sse_next") := ⟨hdefault.1, hdefault.2, rfl, by decide⟩
  obtain ⟨ids, hids, hnumbered⟩ := h _ _ 0 _ _ [] haccepted
  have hplain : ¬Generic (ascii "sse_demo") (ascii "sse_next") := not_not.mpr ⟨rfl, rfl⟩
  have hsent := @offer_sent Nat (newClient (offering (lastEventId hm + 1)) 0 hm
    (ascii "sse_demo") (ascii "sse_next")) _ (Int.lt_succ (lastEventId hm)) (by omega)
  rw [life, events_cons, sendVisit, sendEvent_next rfl rfl, hsent] at hids
  cases hids with
  | cons hid hnil =>
    cases hnil with
    | nil =>
      have hafter := hnumbered.afterHeader hplain _ List.mem_cons_self
      rw [idOf_unique hid (idOf_event _ _ _)] at hafter
      omega

/-- The numbers are as they should be exactly when the front of the header that a default request
comes with stands for the same number as the whole. -/
theorem ids_increase_iff (hm : HttpMessage) :
    IdsIncrease hm ↔ (Default hm → lastEventId hm = headerNumber hm) := by
  constructor
  · intro h hdefault
    exact header_of_increase h hdefault
  · intro header env t c lib symbol envs accepted
    exact numbered_of_accepted c envs accepted header

/-- The number five behind many zeros. -/
def longHeader : List (Bytes × Bytes) :=
  [(ascii "Last-Event-ID", List.replicate 40 48 ++ [53])]

private theorem longHeader_plain : ∀ h ∈ longHeader, 0 ∉ h.2 :=
  List.forall_mem_singleton.mpr (by decide)

/-- With it, events are sent again that the client has seen. -/
theorem seen_again : ¬IdsIncrease (getRequest [] longHeader plain_nil longHeader_plain) := by
  intro h
  have hdefault : Default (getRequest [] longHeader plain_nil longHeader_plain) :=
    ⟨by decide, by decide +kernel⟩
  have hsame := header_of_increase h hdefault
  revert hsame
  decide +kernel

end Numbers

end Cyctron.Sse.Resume
