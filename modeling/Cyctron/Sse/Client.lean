/- Cyctron/Sse/Client
   digest: The client of sse_request.ts on a stream of events and keepalives, however it is cut. -/

import Cyctron.Json.Build
import Cyctron.Sse.Format
import Cyctron.Text.Utf8

set_option autoImplicit false
set_option relaxedAutoImplicit false

namespace Cyctron.Sse.Client

open Cyctron.Base.CString Cyctron.Sse.Format Cyctron.Text.Utf8
open Cyctron.Json.Build (decimalInt_shape)
open Cyctron.Json.Text (utf8)

/-- What `Number` makes of a text: a decimal integer that a double holds exactly; no other text is
looked at. -/
inductive JsNumber
  | integer (i : Int)
  | other
  deriving DecidableEq

def jsNumber (s : Text) : JsNumber :=
  let negative := s.head? = some '-'
  let digits := if negative then s.drop 1 else s
  let n := Nat.ofDigitChars 10 digits 0
  if digits ≠ [] ∧ digits.all Char.isDigit = true ∧ n ≤ 2 ^ 53 then
    .integer (if negative then -(n : Int) else n)
  else .other

structure SseEvent where
  id : Option JsNumber
  event : Option Text
  data : Option Text
  deriving DecidableEq

/-- The event and `hasField` after a line. -/
def parseLine (r : SseEvent × Bool) (line : Text) : SseEvent × Bool :=
  if line = [] ∨ line.head? = some ':' then r
  else
    match line.idxOf? ':' with
    | none => r
    | some idx =>
      let field := line.take idx
      let rest := line.drop (idx + 1)
      let value := if rest.head? = some ' ' then rest.drop 1 else rest
      if field = "id".toList then ({ r.1 with id := some (jsNumber value) }, true)
      else if field = "event".toList then ({ r.1 with event := some value }, true)
      else if field = "data".toList then
        ({ r.1 with data := some (r.1.data.elim value fun d => d ++ '\n' :: value) }, true)
      else r

def parseBlock (block : Text) : Option SseEvent :=
  let r := (block.splitOn '\n').foldl parseLine (⟨none, none, none⟩, false)
  if r.2 then some r.1 else none

/-- The first place of the needle in a text. -/
def indexOf (needle : Text) : Text → Option Nat
  | [] => if needle = [] then some 0 else none
  | c :: t => if needle <+: c :: t then some 0 else (indexOf needle t).map (· + 1)

def blankLine : Text := ['\n', '\n']

/-- The inner loop of `readSse`; the fuel is the length of the buffer, which each block shortens. -/
def drain (count : Nat) : Nat → List SseEvent → Text → List SseEvent × Text
  | 0, events, buf => (events, buf)
  | fuel + 1, events, buf =>
    match indexOf blankLine buf with
    | none => (events, buf)
    | some sep =>
      let events' := events ++ (parseBlock (buf.take sep)).toList
      let buf' := buf.drop (sep + 2)
      if count ≤ events'.length then (events', buf') else drain count fuel events' buf'

/-- The outer loop of `readSse` over the chunks of the body. -/
def readLoop (count : Nat) : List Bytes → TextDecoder → Text → List SseEvent → List SseEvent
  | [], _, _, events => events
  | value :: chunks, decoder, buf, events =>
    if count ≤ events.length then events
    else
      let r := decoder.decode value
      let q := drain count (buf ++ r.2).length events (buf ++ r.2)
      readLoop count chunks r.1 q.2 q.1

/-- The events that `readSse` gives when the response is a stream in these chunks. -/
def readSse (count : Nat) (chunks : List Bytes) : List SseEvent :=
  readLoop count chunks .fresh [] []

/-- An event that is formatted successfully, with an integer that the client can hold and a name and
data of one line. -/
structure Sent where
  outSize : Nat
  id : Int
  event : Option Bytes
  data : Option Bytes
  text : Bytes
  formatted : sseFormatEvent outSize id event data = some text
  id_exact : id.natAbs ≤ 2 ^ 53
  event_line : 10 ∉ eventName event
  data_line : 10 ∉ eventData data

/-- What the server puts on the stream. -/
inductive Item
  | event (e : Sent)
  | ping

def Item.bytes : Item → Bytes
  | .event e => e.text
  | .ping => keepalive

def Item.event? : Item → Option Sent
  | .event e => some e
  | .ping => none

/-- What the client makes of an event. -/
def received (e : Sent) : SseEvent :=
  ⟨some (.integer e.id), some (text (eventName e.event)), some (text (eventData e.data))⟩

section Blocks

variable {t b : Text} {segs : List Text} {lines : List Text} {n : Nat} {c : Char}

/-- Lines with their ends. -/
def unlines (ls : List Text) : Text := ls.flatMap (· ++ ['\n'])

/-- A line of a block is not empty. -/
def Line (l : Text) : Prop := l ≠ [] ∧ '\n' ∉ l

private theorem indexOf_none (h : ¬blankLine <:+: t) : indexOf blankLine t = none := by
  induction t with
  | nil => rfl
  | cons c t ih =>
    have hfront : ¬blankLine <+: c :: t := fun hp => h hp.isInfix
    have hrest : ¬blankLine <:+: t := fun hi => h (hi.trans (List.suffix_cons c t).isInfix)
    rw [indexOf, if_neg hfront, ih hrest]
    rfl

private theorem blankLine_infix_cons : blankLine <:+: c :: t ↔
    (c = '\n' ∧ t.head? = some '\n') ∨ blankLine <:+: t := by
  rw [List.infix_cons_iff]
  refine or_congr_left ?_
  unfold blankLine
  rw [List.cons_prefix_cons]
  cases t with
  | nil => simp
  | cons c' t =>
    rw [List.cons_prefix_cons]
    simp [eq_comm]

private theorem line_solid {l : Text} (hl : Line l) (ht : ¬blankLine <:+: t)
    (hhead : t.head? ≠ some '\n') :
    ¬blankLine <:+: l ++ '\n' :: t := by
  obtain ⟨hne, hline⟩ := hl
  induction l with
  | nil => exact absurd rfl hne
  | cons c l ih =>
    have hc : c ≠ '\n' := fun h => hline (h ▸ List.mem_cons_self)
    rw [List.cons_append, blankLine_infix_cons, or_iff_right fun h => hc h.1]
    cases l with
    | nil =>
      rw [List.nil_append, blankLine_infix_cons, not_or]
      exact ⟨fun h => hhead h.2, ht⟩
    | cons c' l =>
      apply ih (List.cons_ne_nil c' l)
      intro h
      exact hline (List.mem_cons_of_mem c h)

private theorem unlines_head (h : ∀ l ∈ lines, Line l) : (unlines lines).head? ≠ some '\n' := by
  cases lines with
  | nil => exact (Option.some_ne_none _).symm
  | cons l ls =>
    obtain ⟨hne, hline⟩ := h l List.mem_cons_self
    obtain ⟨c, l, rfl⟩ := List.exists_cons_of_ne_nil hne
    intro hc
    exact hline (Option.some.inj hc ▸ List.mem_cons_self)

/-- Lines that are not empty leave no blank line. -/
private theorem unlines_solid (h : ∀ l ∈ lines, Line l) : ¬blankLine <:+: unlines lines := by
  induction lines with
  | nil => decide
  | cons l ls ih =>
    have hrest : ∀ l ∈ ls, Line l := fun l hl => h l (List.mem_cons_of_mem _ hl)
    have hshape : unlines (l :: ls) = l ++ '\n' :: unlines ls := by simp [unlines]
    rw [hshape]
    exact line_solid (h l List.mem_cons_self) (ih hrest) (unlines_head hrest)

/-- The first blank line behind a block without one. -/
private theorem indexOf_block (h : ¬blankLine <:+: b ++ ['\n']) (t : Text) :
    indexOf blankLine (b ++ '\n' :: '\n' :: t) = some b.length := by
  induction b with
  | nil => simp [indexOf, blankLine]
  | cons c b ih =>
    rw [List.cons_append, blankLine_infix_cons, not_or] at h
    have hfront : ¬blankLine <+: c :: (b ++ '\n' :: '\n' :: t) := by
      intro hp
      unfold blankLine at hp
      rw [List.cons_prefix_cons] at hp
      refine h.1 ⟨hp.1.symm, ?_⟩
      cases b with
      | nil => rfl
      | cons c' b =>
        rw [List.cons_append, List.cons_prefix_cons] at hp
        rw [List.cons_append, List.head?_cons, hp.2.1]
    rw [List.cons_append, indexOf, if_neg hfront, ih h.2]
    rfl

/-- Blocks with blank lines behind them, and what follows the last one. -/
def joinBlocks (segs : List Text) (tail : Text) : Text := segs.flatMap (· ++ blankLine) ++ tail

private theorem joinBlocks_cons (b : Text) (segs : List Text) (tail : Text) :
    joinBlocks (b :: segs) tail = b ++ '\n' :: '\n' :: joinBlocks segs tail := by
  simp [joinBlocks, blankLine]

/-- A text that the client reads as an event. -/
structure Reads (b : Text) (e : SseEvent) : Prop where
  solid : ¬blankLine <:+: b ++ ['\n']
  parse : parseBlock b = some e

variable {f : Text → SseEvent} {tail z : Text} {events : List SseEvent} {count fuel : Nat}

/-- The inner loop has nothing to do without a blank line. -/
private theorem drain_stop (h : ¬blankLine <:+: t) : drain count fuel events t = (events, t) := by
  cases fuel with
  | zero => rfl
  | succ fuel => rw [drain, indexOf_none h]

private theorem drain_block {e : SseEvent} (h : Reads b e) (t : Text) :
    drain count (fuel + 1) events (b ++ '\n' :: '\n' :: t) =
      if count ≤ (events ++ [e]).length then (events ++ [e], t)
      else drain count fuel (events ++ [e]) t := by
  have hdrop : (b ++ '\n' :: '\n' :: t).drop (b.length + 2) = t := by
    rw [List.drop_append]
    simp
  rw [drain, indexOf_block h.solid t]
  dsimp only
  rw [List.take_left, h.parse, hdrop]
  rfl

/-- What the inner loop leaves: the blocks that it takes off the front of the buffer, as far as it
may, and no blank line if it may go on. -/
structure Drained (f : Text → SseEvent) (count : Nat) (events : List SseEvent) (segs : List Text)
    (tail z : Text) (r : List SseEvent × Text) (done rest : List Text) : Prop where
  split : segs = done ++ rest
  events_eq : r.1 = events ++ done.map f
  buffer : r.2 ++ z = joinBlocks rest tail
  within : events.length + done.length ≤ count
  idle : count ≤ events.length + done.length ∨ ¬blankLine <:+: r.2

private theorem drain_spec (hsegs : ∀ b ∈ segs, Reads b (f b)) (htail : ¬blankLine <:+: tail)
    (hfuel : t.length ≤ fuel) (heq : t ++ z = joinBlocks segs tail) (hcount : events.length < count) :
    ∃ done rest, Drained f count events segs tail z (drain count fuel events t) done rest := by
  induction segs generalizing t events fuel with
  | nil =>
    have hfront : t <+: tail := ⟨z, heq⟩
    have hnone : ¬blankLine <:+: t := fun hinside => htail (hinside.trans hfront.isInfix)
    rw [drain_stop hnone]
    exact ⟨[], [], rfl, (List.append_nil events).symm, heq, Nat.le_of_lt hcount, Or.inr hnone⟩
  | cons b segs ih =>
    have hread := hsegs b List.mem_cons_self
    rw [joinBlocks_cons] at heq
    by_cases hlong : b.length + 2 ≤ t.length
    · have hblock : b ++ blankLine <+: t ++ z := by
        rw [heq]
        exact ⟨joinBlocks segs tail, by simp [blankLine]⟩
      obtain ⟨t, rfl⟩ := List.prefix_of_prefix_length_le hblock (List.prefix_append t z)
        (by simpa [blankLine] using hlong)
      have hshape : b ++ blankLine ++ t = b ++ '\n' :: '\n' :: t := by simp [blankLine]
      rw [hshape] at heq hfuel ⊢
      have hrest : t ++ z = joinBlocks segs tail := by simpa using heq
      cases fuel with
      | zero => simp at hfuel
      | succ fuel =>
        rw [drain_block hread]
        by_cases hfull : count ≤ (events ++ [f b]).length
        · rw [if_pos hfull]
          rw [List.length_append, List.length_singleton] at hfull
          exact ⟨[b], segs, rfl, rfl, hrest, hcount, Or.inl hfull⟩
        · rw [if_neg hfull]
          have hshort : t.length ≤ fuel := by
            simp only [List.length_append, List.length_cons] at hfuel
            omega
          obtain ⟨done, rest, hdone⟩ := ih (fun b hb => hsegs b (List.mem_cons_of_mem _ hb)) hshort
            hrest (Nat.lt_of_not_le hfull)
          obtain ⟨hsplit, hevents, hbuffer, hwithin, hidle⟩ := hdone
          rw [List.length_append, List.length_singleton] at hwithin hidle
          refine ⟨b :: done, rest, by rw [hsplit]; rfl, ?_, hbuffer, ?_, ?_⟩
          · rw [hevents, List.append_assoc]
            rfl
          · rw [List.length_cons]
            omega
          · rw [List.length_cons]
            exact hidle.imp_left fun h => by omega
    · have hline : b ++ ['\n'] <+: t ++ z := by
        rw [heq]
        exact ⟨'\n' :: joinBlocks segs tail, by simp⟩
      have hfront : t <+: b ++ ['\n'] := by
        apply List.prefix_of_prefix_length_le (List.prefix_append t z) hline
        rw [List.length_append, List.length_singleton]
        omega
      have hnone : ¬blankLine <:+: t := fun hinside => hread.solid (hinside.trans hfront.isInfix)
      rw [drain_stop hnone]
      refine ⟨[], b :: segs, rfl, (List.append_nil events).symm, ?_, Nat.le_of_lt hcount,
        Or.inr hnone⟩
      rw [joinBlocks_cons]
      exact heq

/-- The outer loop gives the events of the blocks, up to the count. -/
private theorem readLoop_spec (hsegs : ∀ b ∈ segs, Reads b (f b)) (htail : ¬blankLine <:+: tail)
    (chunks : List Bytes) (decoder : TextDecoder) (hidle : count ≤ events.length ∨ ¬blankLine <:+: t)
    (heq : t ++ (decoder.decode chunks.flatten).2 = joinBlocks segs tail) :
    readLoop count chunks decoder t events = events ++ (segs.map f).take (count - events.length) := by
  induction chunks generalizing decoder t events segs with
  | nil =>
    have hnothing : (decoder.decode []).2 = [] := by simp [TextDecoder.decode, decode]
    rw [List.flatten_nil, hnothing, List.append_nil] at heq
    rw [readLoop]
    rcases hidle with hfull | hnone
    · rw [Nat.sub_eq_zero_of_le hfull, List.take_zero, List.append_nil]
    · cases segs with
      | nil => simp
      | cons b segs =>
        refine absurd ?_ hnone
        rw [heq, joinBlocks_cons]
        exact ⟨b, joinBlocks segs tail, by simp [blankLine]⟩
  | cons value chunks ih =>
    rw [readLoop]
    by_cases hfull : count ≤ events.length
    · rw [if_pos hfull, Nat.sub_eq_zero_of_le hfull, List.take_zero, List.append_nil]
    · rw [if_neg hfull]
      dsimp only
      rw [List.flatten_cons, TextDecoder.decode_append, ← List.append_assoc] at heq
      obtain ⟨done, rest, hsplit, hevents, hbuffer, hwithin, hidle'⟩ :=
        drain_spec hsegs htail (Nat.le_refl _) heq (Nat.lt_of_not_le hfull)
      have hlength : (events ++ done.map f).length = events.length + done.length := by
        rw [List.length_append, List.length_map]
      have hrest : ∀ b ∈ rest, Reads b (f b) :=
        fun b hb => hsegs b (hsplit ▸ List.mem_append_right done hb)
      have hall : (done.map f).take (count - events.length) = done.map f := by
        apply List.take_of_length_le
        rw [List.length_map]
        omega
      rw [← hlength, ← hevents] at hidle'
      rw [ih hrest _ hidle' hbuffer, hevents, hlength, hsplit, List.map_append, List.take_append,
        List.length_map, List.append_assoc, hall, Nat.sub_sub]

end Blocks

section Lines

variable {name data : Text} {id : Int} {lines : List Text} {n : Nat}

def pingLine : Text := ": ping".toList

def idLine (id : Int) : Text := "id: ".toList ++ digits id
def eventLine (name : Text) : Text := "event: ".toList ++ name
def dataLine (data : Text) : Text := "data: ".toList ++ data

/-- The lines of a block, with the keepalives that come before its event. -/
def blockLines (n : Nat) (id : Int) (name data : Text) : List Text :=
  List.replicate n pingLine ++ [idLine id, eventLine name, dataLine data]

private theorem digits_decimal (n : Nat) : (decimal n).map (fun c => Char.ofNat c.toNat) =
    Nat.toDigits 10 n := by
  rw [decimal, List.map_map]
  refine (List.map_congr_left fun c hc => ?_).trans (List.map_id _)
  have hdigit : c.isDigit = true := Nat.isDigit_of_mem_toDigits (by decide) (by decide) hc
  have hsmall : c.toNat < 256 := by
    simp only [Char.isDigit, Bool.and_eq_true, decide_eq_true_eq] at hdigit
    have hle : c.toNat ≤ 57 := hdigit.2
    omega
  change Char.ofNat (UInt8.ofNat c.toNat).toNat = c
  rw [UInt8.toNat_ofNat', Nat.mod_eq_of_lt hsmall, Char.ofNat_toNat]

private theorem digits_isDigit (n : Nat) : ∀ c ∈ Nat.toDigits 10 n, c.isDigit = true :=
  fun _ hc => Nat.isDigit_of_mem_toDigits (by decide) (by decide) hc

/-- The client reads the number that was written. -/
private theorem jsNumber_digits (h : id.natAbs ≤ 2 ^ 53) : jsNumber (digits id) = .integer id := by
  have hread : ∀ n : Nat, n ≤ 2 ^ 53 → Nat.toDigits 10 n ≠ [] ∧
      (Nat.toDigits 10 n).all Char.isDigit = true ∧
      Nat.ofDigitChars 10 (Nat.toDigits 10 n) 0 ≤ 2 ^ 53 := by
    intro n hn
    rw [Nat.ofDigitChars_ten_toDigits]
    exact ⟨Nat.toDigits_ne_nil, List.all_eq_true.mpr (digits_isDigit n), hn⟩
  cases id with
  | ofNat n =>
    have hdigits : digits (.ofNat n) = Nat.toDigits 10 n := digits_decimal n
    have hsign : ¬(Nat.toDigits 10 n).head? = some '-' := by
      intro hhead
      have hdigit := digits_isDigit n '-' (List.mem_of_head? hhead)
      exact absurd hdigit (by decide)
    rw [hdigits, jsNumber, if_neg hsign, if_pos (hread n h), if_neg hsign,
      Nat.ofDigitChars_ten_toDigits]
    rfl
  | negSucc n =>
    have hdigits : digits (.negSucc n) = '-' :: Nat.toDigits 10 (n + 1) := by
      change Char.ofNat 45 :: (decimal (n + 1)).map (fun c => Char.ofNat c.toNat) = _
      rw [digits_decimal]
    rw [hdigits, jsNumber, if_pos (List.head?_cons), List.drop_succ_cons, List.drop_zero,
      if_pos (hread (n + 1) h), if_pos (List.head?_cons), Nat.ofDigitChars_ten_toDigits]
    rfl

private theorem digits_line (id : Int) : '\n' ∉ digits id :=
  digits_notMem id (c := 10) (by decide) (by decide) (by decide)

private theorem blockLines_line (hname : '\n' ∉ name) (hdata : '\n' ∉ data) :
    ∀ l ∈ blockLines n id name data, Line l := by
  have hline : ∀ (w : String) (t : Text), w.toList ≠ [] → '\n' ∉ w.toList → '\n' ∉ t →
      Line (w.toList ++ t) := by
    intro w t hne hw ht
    refine ⟨fun h => hne (List.append_eq_nil_iff.mp h).1, fun h => ?_⟩
    exact (List.mem_append.mp h).elim hw ht
  intro l hl
  rw [blockLines, List.mem_append, List.mem_replicate, List.mem_cons, List.mem_cons,
    List.mem_singleton] at hl
  rcases hl with ⟨_, rfl⟩ | rfl | rfl | rfl
  · exact ⟨by decide, by decide⟩
  · exact hline "id: " _ (by decide) (by decide) (digits_line id)
  · exact hline "event: " _ (by decide) (by decide) hname
  · exact hline "data: " _ (by decide) (by decide) hdata

private theorem intercalate_unlines (h : lines ≠ []) :
    ['\n'].intercalate lines ++ ['\n'] = unlines lines := by
  induction lines with
  | nil => exact absurd rfl h
  | cons l ls ih =>
    cases ls with
    | nil => simp [unlines]
    | cons l' ls =>
      have hrest := ih (List.cons_ne_nil l' ls)
      rw [List.intercalate_cons_of_ne_nil (List.cons_ne_nil l' ls), List.append_assoc,
        List.append_assoc, hrest]
      simp [unlines]

private theorem parseLine_ping (r : SseEvent × Bool) : parseLine r pingLine = r :=
  if_pos (Or.inr rfl)

private theorem idxOf_colon {field : Text} (h : ':' ∉ field) (t : Text) :
    (field ++ ':' :: t).idxOf? ':' = some field.length := by
  induction field with
  | nil => simp [List.idxOf?_cons]
  | cons c field ih =>
    have hc : (c == ':') = false := beq_eq_false_iff_ne.mpr fun heq => h (heq ▸ List.mem_cons_self)
    rw [List.cons_append, List.idxOf?_cons, hc, ih fun hmem => h (List.mem_cons_of_mem c hmem)]
    rfl

/-- A line whose field the client knows. -/
private theorem parseLine_field (r : SseEvent × Bool) (field : String) (value : Text)
    (hne : field.toList ≠ []) (hcolon : ':' ∉ field.toList) :
    parseLine r (field.toList ++ ':' :: ' ' :: value) =
      if field.toList = "id".toList then ({ r.1 with id := some (jsNumber value) }, true)
      else if field.toList = "event".toList then ({ r.1 with event := some value }, true)
      else if field.toList = "data".toList then
        ({ r.1 with data := some (r.1.data.elim value fun d => d ++ '\n' :: value) }, true)
      else r := by
  have hline : ¬(field.toList ++ ':' :: ' ' :: value = [] ∨
      (field.toList ++ ':' :: ' ' :: value).head? = some ':') := by
    obtain ⟨c, t, ht⟩ := List.exists_cons_of_ne_nil hne
    rw [ht, List.cons_append, List.head?_cons, not_or]
    refine ⟨List.cons_ne_nil _ _, fun h => hcolon ?_⟩
    rw [ht]
    exact Option.some.inj h ▸ List.mem_cons_self
  have hdrop : (field.toList ++ ':' :: ' ' :: value).drop (field.toList.length + 1) =
      ' ' :: value := by
    rw [List.drop_append]
    simp
  rw [parseLine, if_neg hline, idxOf_colon hcolon]
  dsimp only
  rw [List.take_left, hdrop, if_pos List.head?_cons]
  rfl

private theorem parseLine_id (r : SseEvent × Bool) (id : Int) :
    parseLine r (idLine id) = ({ r.1 with id := some (jsNumber (digits id)) }, true) :=
  (parseLine_field r "id" (digits id) (by decide) (by decide)).trans (if_pos rfl)

private theorem parseLine_event (r : SseEvent × Bool) (name : Text) :
    parseLine r (eventLine name) = ({ r.1 with event := some name }, true) :=
  (parseLine_field r "event" name (by decide) (by decide)).trans
    ((if_neg (by decide)).trans (if_pos rfl))

private theorem parseLine_data (r : SseEvent × Bool) (data : Text) :
    parseLine r (dataLine data) =
      ({ r.1 with data := some (r.1.data.elim data fun d => d ++ '\n' :: data) }, true) :=
  (parseLine_field r "data" data (by decide) (by decide)).trans
    ((if_neg (by decide)).trans ((if_neg (by decide)).trans (if_pos rfl)))

/-- The client reads the event of a block and passes over its keepalives. -/
private theorem reads_block (hid : id.natAbs ≤ 2 ^ 53) (hname : '\n' ∉ name) (hdata : '\n' ∉ data) :
    Reads (['\n'].intercalate (blockLines n id name data))
      ⟨some (.integer id), some name, some data⟩ := by
  have hlines : ∀ l ∈ blockLines n id name data, Line l := blockLines_line hname hdata
  have hne : blockLines n id name data ≠ [] := by simp [blockLines]
  refine ⟨?_, ?_⟩
  · rw [intercalate_unlines hne]
    exact unlines_solid hlines
  · have hsplit : (['\n'].intercalate (blockLines n id name data)).splitOn '\n' =
        blockLines n id name data := List.splitOn_intercalate _ (fun l hl => (hlines l hl).2) hne
    have hpings : ∀ (n : Nat) (r : SseEvent × Bool),
        (List.replicate n pingLine).foldl parseLine r = r := by
      intro n r
      induction n with
      | zero => rfl
      | succ n ih => rw [List.replicate_succ, List.foldl_cons, parseLine_ping, ih]
    have hfields : ([idLine id, eventLine name, dataLine data] : List Text).foldl parseLine
        (⟨none, none, none⟩, false) = (⟨some (.integer id), some name, some data⟩, true) := by
      rw [List.foldl_cons, parseLine_id, jsNumber_digits hid, List.foldl_cons, parseLine_event,
        List.foldl_cons, parseLine_data, List.foldl_nil]
      rfl
    unfold parseBlock
    dsimp only
    rw [hsplit, blockLines, List.foldl_append, hpings, hfields]
    rfl

end Lines

section Streams

variable {items : List Item} {e : Sent} {n : Nat} {bs : Bytes}

private theorem line_text (h : 10 ∉ bs) : '\n' ∉ text bs := text_notMem (c := 10) (by decide) h

/-- The lines of an event, with the keepalives that come before it. -/
def eventLines (n : Nat) (e : Sent) : List Text :=
  blockLines n e.id (text (eventName e.event)) (text (eventData e.data))

private theorem unlines_words (a b c x y z t : Text) :
    a ++ (x ++ '\n' :: (b ++ (y ++ '\n' :: (c ++ (z ++ '\n' :: '\n' :: t))))) =
      unlines [a ++ x, b ++ y, c ++ z] ++ '\n' :: t := by
  simp [unlines]

private theorem decode_event (e : Sent) (cs : Bytes) : decode between (e.text ++ cs) =
    ((decode between cs).1, unlines (eventLines 0 e) ++ '\n' :: (decode between cs).2) := by
  rw [format_text e.formatted, decode_eventText, unlines_words]
  rfl

private theorem decode_ping (cs : Bytes) : decode between (keepalive ++ cs) =
    ((decode between cs).1, unlines [pingLine] ++ (decode between cs).2) := by
  rw [decode_keepalive, unlines, List.flatMap_singleton, List.append_assoc]
  rfl

/-- The block of an event. -/
def eventBlock (n : Nat) (e : Sent) : Text := ['\n'].intercalate (eventLines n e)

/-- The blocks of a stream and what follows the last one, behind keepalives. -/
def blocksOf : Nat → List Item → List Text × Text
  | n, [] => ([], unlines (List.replicate n pingLine))
  | n, .ping :: items => blocksOf (n + 1) items
  | n, .event e :: items =>
    let r := blocksOf 0 items
    (eventBlock n e :: r.1, r.2)

private theorem unlines_append (ls ls' : List Text) :
    unlines (ls ++ ls') = unlines ls ++ unlines ls' :=
  List.flatMap_append

/-- The keepalives before an event are lines of its block. -/
private theorem eventBlock_lines (n : Nat) (e : Sent) :
    eventBlock n e ++ ['\n'] = unlines (List.replicate n pingLine) ++ unlines (eventLines 0 e) := by
  have hne : eventLines n e ≠ [] := by simp [eventLines, blockLines]
  rw [eventBlock, intercalate_unlines hne, ← unlines_append]
  rfl

/-- The stream, decoded behind keepalives. -/
private theorem decode_items (n : Nat) (items : List Item) : unlines (List.replicate n pingLine) ++
    (decode between (items.flatMap Item.bytes)).2 =
      joinBlocks (blocksOf n items).1 (blocksOf n items).2 := by
  induction items generalizing n with
  | nil => simp [blocksOf, joinBlocks, decode]
  | cons item items ih =>
    rw [List.flatMap_cons]
    cases item with
    | ping =>
      rw [Item.bytes, decode_ping, blocksOf, ← ih (n + 1), List.replicate_succ', unlines_append,
        List.append_assoc]
    | event e =>
      have hrest := ih 0
      rw [List.replicate_zero, unlines, List.flatMap_nil, List.nil_append] at hrest
      rw [Item.bytes, decode_event, blocksOf, joinBlocks_cons, ← hrest]
      dsimp only
      rw [← List.append_assoc, ← eventBlock_lines, List.append_assoc, List.singleton_append]

private theorem reads_event (n : Nat) (e : Sent) : Reads (eventBlock n e) (received e) :=
  reads_block e.id_exact (line_text e.event_line) (line_text e.data_line)

/-- What the client makes of a block. -/
def readBlock (b : Text) : SseEvent := (parseBlock b).getD ⟨none, none, none⟩

private theorem readBlock_event (n : Nat) (e : Sent) : readBlock (eventBlock n e) = received e := by
  rw [readBlock, (reads_event n e).parse]
  rfl

private theorem blocksOf_reads (n : Nat) (items : List Item) :
    ∀ b ∈ (blocksOf n items).1, Reads b (readBlock b) := by
  induction items generalizing n with
  | nil =>
    intro b hb
    cases hb
  | cons item items ih =>
    cases item with
    | ping => exact ih (n + 1)
    | event e =>
      intro b hb
      rcases List.mem_cons.mp hb with rfl | hb
      · rw [readBlock_event]
        exact reads_event n e
      · exact ih 0 b hb

private theorem blocksOf_map (n : Nat) (items : List Item) :
    (blocksOf n items).1.map readBlock = (items.filterMap Item.event?).map received := by
  induction items generalizing n with
  | nil => rfl
  | cons item items ih =>
    cases item with
    | ping => exact ih (n + 1)
    | event e =>
      change readBlock (eventBlock n e) :: (blocksOf 0 items).1.map readBlock =
        received e :: (items.filterMap Item.event?).map received
      rw [readBlock_event, ih 0]

private theorem blocksOf_tail (n : Nat) (items : List Item) :
    ¬blankLine <:+: (blocksOf n items).2 := by
  induction items generalizing n with
  | nil =>
    apply unlines_solid
    intro l hl
    rw [(List.mem_replicate.mp hl).2]
    exact ⟨by decide, by decide⟩
  | cons item items ih =>
    cases item with
    | ping => exact ih (n + 1)
    | event e => exact ih 0

/-- A stream begins with no mark. -/
private theorem decode_stream (items : List Item) :
    (TextDecoder.fresh.decode (items.flatMap Item.bytes)).2 =
      (decode between (items.flatMap Item.bytes)).2 := by
  apply TextDecoder.decode_fresh
  cases items with
  | nil => decide
  | cons item items =>
    rw [List.flatMap_cons]
    cases item with
    | ping =>
      rw [Item.bytes, decode_ping]
      change some ':' ≠ some byteOrderMark
      decide
    | event e =>
      rw [Item.bytes, decode_event]
      change some 'i' ≠ some byteOrderMark
      decide

/-- However the stream is cut, the client gets the events that were sent and nothing else. -/
private theorem stream_received (count : Nat) (items : List Item) (chunks : List Bytes)
    (h : chunks.flatten = items.flatMap Item.bytes) :
    readSse count chunks = ((items.filterMap Item.event?).map received).take count := by
  have hstream : [] ++ (TextDecoder.fresh.decode chunks.flatten).2 =
      joinBlocks (blocksOf 0 items).1 (blocksOf 0 items).2 := by
    rw [h, decode_stream, ← decode_items]
    rfl
  rw [readSse, readLoop_spec (blocksOf_reads 0 items) (blocksOf_tail 0 items) chunks _
    (Or.inr (by decide)) hstream, blocksOf_map]
  rfl

private theorem encode_eq_nil {t : Text} : encode t = [] ↔ t = [] := by
  constructor
  · intro h
    cases t with
    | nil => rfl
    | cons c t =>
      have hbytes : ∀ n, utf8 n ≠ [] := by
        intro n
        unfold utf8
        split_ifs <;> exact List.cons_ne_nil _ _
      exact absurd (List.append_eq_nil_iff.mp h).1 (hbytes c.toNat)
  · rintro rfl
    rfl

/-- An empty name is read as the name that stands for it. -/
private theorem text_eventName {event : Option Bytes} {t : Text} (h : event.getD [] = encode t) :
    text (eventName event) = if t = [] then "message".toList else t := by
  by_cases ht : t = []
  · have hnone : eventName event = ascii "message" := by
      rw [encode_eq_nil.mpr ht] at h
      cases event with
      | none => rfl
      | some b =>
        obtain rfl : b = [] := h
        rfl
    rw [if_pos ht, hnone]
    decide
  · have hname : eventName event = encode t := by
      have hne : encode t ≠ [] := fun h => ht (encode_eq_nil.mp h)
      cases event with
      | none => exact absurd h.symm hne
      | some b =>
        obtain rfl : b = encode t := h
        obtain ⟨c, bs, hcons⟩ := List.exists_cons_of_ne_nil hne
        rw [hcons]
        rfl
    rw [if_neg ht, hname, text_encode]

/-- However a stream of events and keepalives is cut, the client gets the events that were sent and
nothing else. -/
theorem client_receives (count : Nat) (items : List Item) (chunks : List Bytes)
    (h : chunks.flatten = items.flatMap Item.bytes) :
    readSse count chunks = ((items.filterMap Item.event?).map received).take count ∧
      ∀ e t u, .event e ∈ items → e.event.getD [] = encode t → eventData e.data = encode u →
        received e = ⟨some (.integer e.id), some (if t = [] then "message".toList else t),
          some u⟩ := by
  refine ⟨stream_received count items chunks h, ?_⟩
  intro e t u _ hevent hdata
  rw [received, text_eventName hevent, hdata, text_encode]

def sampleEvent : Sent where
  outSize := 4096
  id := 7
  event := some []
  data := some (encode ['é'])
  text := eventText 7 (some []) (some (encode ['é']))
  formatted := by decide
  id_exact := by decide
  event_line := by decide
  data_line := by decide

/-- Two keepalives around an event, cut inside the character of its data. -/
theorem client_receives_sample :
    ∃ front rest, front ++ rest = [.ping, .event sampleEvent, .ping].flatMap Item.bytes ∧
      front.getLast? = some 195 ∧
      readSse 3 [front, rest] =
        [⟨some (.integer 7), some "message".toList, some ['é']⟩] := by
  refine ⟨_, _, List.take_append_drop 35 _, by decide, ?_⟩
  obtain ⟨hread, hreceived⟩ := client_receives 3 [.ping, .event sampleEvent, .ping]
    [List.take 35 ([.ping, .event sampleEvent, .ping].flatMap Item.bytes),
      List.drop 35 ([.ping, .event sampleEvent, .ping].flatMap Item.bytes)] (by simp)
  rw [hread]
  have hevent := hreceived sampleEvent [] ['é'] (by simp) (by decide) (by decide)
  change [received sampleEvent] = _
  rw [hevent]
  rfl

end Streams

end Cyctron.Sse.Client
