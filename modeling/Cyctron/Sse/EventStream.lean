/- Cyctron.Sse.EventStream
   digest: A client that follows the event-stream format, and the events that it reads. -/

import Cyctron.Sse.Format

set_option autoImplicit false
set_option relaxedAutoImplicit false

namespace Cyctron.Sse.EventStream

open Cyctron.Sse.Format

structure Message where
  type : Text
  data : Text
  lastEventId : Text
  deriving DecidableEq

/-- The client between two characters: whether the last one was a carriage return, the line so far,
the buffers, and what it has seen: fields that the format knows, and messages. -/
structure EventSource where
  afterReturn : Bool
  line : Text
  data : Text
  type : Text
  lastEventId : Text
  fields : List (Text × Text)
  messages : List Message
  deriving DecidableEq

def EventSource.initial : EventSource := ⟨false, [], [], [], [], [], []⟩

def EventSource.dispatch (s : EventSource) : EventSource :=
  if s.data = [] then { s with type := [] }
  else
    { s with
      data := []
      type := []
      messages := s.messages ++
        [⟨if s.type = [] then "message".toList else s.type, s.data.dropLast, s.lastEventId⟩] }

def EventSource.processField (s : EventSource) (field value : Text) : EventSource :=
  let seen := { s with fields := s.fields ++ [(field, value)] }
  if field = "event".toList then { seen with type := value }
  else if field = "data".toList then { seen with data := s.data ++ value ++ ['\n'] }
  else if field = "id".toList then
    if Char.ofNat 0 ∈ value then seen else { seen with lastEventId := value }
  else if field = "retry".toList then seen
  else s

/-- A line without a colon is a field without a value. -/
def EventSource.endLine (s : EventSource) : EventSource :=
  let l := s.line
  let s := { s with line := [] }
  if l = [] then s.dispatch
  else if l.head? = some ':' then s
  else
    let value := (l.dropWhile (· ≠ ':')).drop 1
    s.processField (l.takeWhile (· ≠ ':')) (if value.head? = some ' ' then value.drop 1 else value)

/-- A line ends with a line feed, a carriage return, or both. -/
def EventSource.feed (s : EventSource) (c : Char) : EventSource :=
  if c = '\n' then
    if s.afterReturn then { s with afterReturn := false } else s.endLine
  else if c = '\r' then { s.endLine with afterReturn := true }
  else { s with afterReturn := false, line := s.line ++ [c] }

def EventSource.read (s : EventSource) (t : Text) : EventSource := t.foldl feed s

/-- The client between two events. -/
structure Ready (s : EventSource) : Prop where
  afterReturn : s.afterReturn = false
  line : s.line = []
  data : s.data = []
  type : s.type = []

/-- The fields of a message, in the order of the server. -/
def fieldsOf (m : Message) : List (Text × Text) :=
  [("id".toList, m.lastEventId), ("event".toList, m.type), ("data".toList, m.data)]

/-- The client after one message more. -/
def EventSource.received (s : EventSource) (m : Message) : EventSource :=
  { s with
    lastEventId := m.lastEventId
    fields := s.fields ++ fieldsOf m
    messages := s.messages ++ [m] }

section Lines

variable {s : EventSource} {l t value : Text} {c : Char}

/-- A text on one line. -/
def OneLine (l : Text) : Prop := '\n' ∉ l ∧ '\r' ∉ l

private theorem oneLine_append {l l' : Text} : OneLine (l ++ l') ↔ OneLine l ∧ OneLine l' := by
  unfold OneLine
  rw [List.mem_append, List.mem_append, not_or, not_or]
  exact and_and_and_comm

private theorem read_append (s : EventSource) (t t' : Text) : s.read (t ++ t') = (s.read t).read t' :=
  List.foldl_append

private theorem read_cons (s : EventSource) (c : Char) (t : Text) :
    s.read (c :: t) = (s.feed c).read t := rfl

/-- The characters of a line are collected. -/
private theorem read_oneLine (hl : OneLine l) (hs : s.afterReturn = false) :
    s.read l = { s with line := s.line ++ l } := by
  induction l generalizing s with
  | nil =>
    rw [List.append_nil]
    rfl
  | cons c l ih =>
    obtain ⟨hlf, hcr⟩ := hl
    rw [List.mem_cons, not_or] at hlf hcr
    have hfeed : s.feed c = { s with line := s.line ++ [c] } := by
      rw [EventSource.feed, if_neg (Ne.symm hlf.1), if_neg (Ne.symm hcr.1)]
      exact congrArg (fun b => { s with afterReturn := b, line := s.line ++ [c] }) hs.symm
    have hrest := ih (s := { s with line := s.line ++ [c] }) ⟨hlf.2, hcr.2⟩ hs
    rw [read_cons, hfeed, hrest, List.append_assoc, List.singleton_append]

/-- A line is ended. -/
private theorem read_line (hl : OneLine l) (hs : s.afterReturn = false) (hempty : s.line = [])
    (t : Text) :
    s.read (l ++ '\n' :: t) = ({ s with line := l }.endLine).read t := by
  rw [read_append, read_oneLine hl hs, hempty, List.nil_append, read_cons]
  refine congrArg (fun s : EventSource => s.read t) ?_
  rw [EventSource.feed, if_pos rfl, hs, if_neg Bool.false_ne_true]

/-- A line with a field. -/
private theorem endLine_field {field : Text} (hne : field ≠ []) (hcolon : ':' ∉ field)
    (hline : s.line = field ++ ':' :: ' ' :: value) :
    s.endLine = { s with line := [] }.processField field value := by
  have hstop : ∀ c ∈ field, decide (c ≠ ':') = true := by
    intro c hc
    apply decide_eq_true
    rintro rfl
    exact hcolon hc
  have htake : (field ++ ':' :: ' ' :: value).takeWhile (· ≠ ':') = field := by
    rw [List.takeWhile_append_of_pos hstop, List.takeWhile_cons_of_neg (by decide), List.append_nil]
  have hdrop : (field ++ ':' :: ' ' :: value).dropWhile (· ≠ ':') = ':' :: ' ' :: value := by
    rw [List.dropWhile_append_of_pos hstop, List.dropWhile_cons_of_neg (by decide)]
  have hstart : ¬field ++ ':' :: ' ' :: value = [] := by simp
  have hcomment : ¬(field ++ ':' :: ' ' :: value).head? = some ':' := by
    obtain ⟨c, t, rfl⟩ := List.exists_cons_of_ne_nil hne
    intro h
    exact hcolon (Option.some.inj h ▸ List.mem_cons_self)
  unfold EventSource.endLine
  dsimp only
  rw [hline, if_neg hstart, if_neg hcomment, htake, hdrop]
  rfl

/-- A comment leaves nothing behind. -/
theorem read_comment (hl : OneLine l) (hs : s.afterReturn = false) (hempty : s.line = [])
    (hcomment : l.head? = some ':') (t : Text) : s.read (l ++ '\n' :: t) = s.read t := by
  have hne : l ≠ [] := by
    rintro rfl
    cases hcomment
  rw [read_line hl hs hempty]
  refine congrArg (fun s : EventSource => s.read t) ?_
  unfold EventSource.endLine
  dsimp only
  rw [if_neg hne, if_pos hcomment]
  exact congrArg (fun l => { s with line := l }) hempty.symm

end Lines

section Blanks

variable {p s : EventSource} {t : Text} {c : Char}

def IsBlank (c : Char) : Prop := c = ' ' ∨ c = '\t' ∨ c = '\n' ∨ c = '\r'

/-- A client in the blanks behind the data of a message: the message is about to be dispatched, or it
is dispatched already, and the line has only blanks so far. -/
def Idle (p s : EventSource) : Prop :=
  ∃ (q : EventSource) (l : Text) (b : Bool), (q = p ∨ q = p.dispatch) ∧
    (∀ c ∈ l, c = ' ' ∨ c = '\t') ∧ (b = true → l = []) ∧
    s = { q with line := l, afterReturn := b }

/-- A name that begins with a blank is none that the format knows. -/
private theorem processField_blank {field value : Text}
    (h : field.head? = some ' ' ∨ field.head? = some '\t') : s.processField field value = s := by
  have hword : ∀ w : String, w.toList.head? ≠ some ' ' → w.toList.head? ≠ some '\t' →
      field ≠ w.toList := by
    rintro w hspace htab rfl
    exact h.elim hspace htab
  unfold EventSource.processField
  dsimp only
  rw [if_neg (hword "event" (by decide) (by decide)), if_neg (hword "data" (by decide) (by decide)),
    if_neg (hword "id" (by decide) (by decide)), if_neg (hword "retry" (by decide) (by decide))]

/-- A line of blanks is no field. -/
private theorem endLine_blank (hne : s.line ≠ []) (hl : ∀ c ∈ s.line, c = ' ' ∨ c = '\t') :
    s.endLine = { s with line := [] } := by
  have hstop : ∀ c ∈ s.line, decide (c ≠ ':') = true := by
    intro c hc
    apply decide_eq_true
    rcases hl c hc with rfl | rfl
    · decide
    · decide
  have htake : s.line.takeWhile (· ≠ ':') = s.line := List.takeWhile_eq_self_iff.mpr hstop
  have hhead : s.line.head? = some ' ' ∨ s.line.head? = some '\t' := by
    obtain ⟨c, t, hline⟩ := List.exists_cons_of_ne_nil hne
    rw [hline, List.head?_cons, Option.some_inj, Option.some_inj]
    exact hl c (hline ▸ List.mem_cons_self)
  have hcomment : ¬s.line.head? = some ':' := by
    intro h
    rw [h] at hhead
    exact absurd hhead (by decide)
  unfold EventSource.endLine
  dsimp only
  rw [if_neg hne, if_neg hcomment, htake, processField_blank hhead]

private theorem dispatch_dispatch (p : EventSource) : p.dispatch.dispatch = p.dispatch := by
  by_cases hdata : p.data = []
  · have hp : p.dispatch = { p with type := [] } := if_pos hdata
    rw [hp]
    exact if_pos hdata
  · have hp : p.dispatch = _ := if_neg hdata
    rw [hp]
    exact if_pos rfl

/-- The client at the start of a line. -/
def AtStart (p : EventSource) : Prop := p.line = [] ∧ p.afterReturn = false

private theorem AtStart.dispatch (h : AtStart p) : AtStart p.dispatch := by
  unfold EventSource.dispatch
  split
  · exact h
  · exact h

private theorem AtStart.eq (h : AtStart p) : { p with line := [], afterReturn := false } = p := by
  obtain ⟨_, _⟩ := p
  obtain ⟨rfl, rfl⟩ := h
  rfl

/-- The end of a line of blanks: an empty one dispatches. -/
private theorem endLine_idle {q : EventSource} {l : Text} {b : Bool} (hq : q = p ∨ q = p.dispatch)
    (hl : ∀ c ∈ l, c = ' ' ∨ c = '\t') : ∃ q', (q' = p ∨ q' = p.dispatch) ∧
      { q with line := l, afterReturn := b }.endLine = { q' with line := [], afterReturn := b } := by
  by_cases hnil : l = []
  · refine ⟨q.dispatch, Or.inr ?_, ?_⟩
    · rcases hq with rfl | rfl
      · rfl
      · exact dispatch_dispatch p
    · subst hnil
      change { q with line := [], afterReturn := b }.dispatch = _
      unfold EventSource.dispatch
      dsimp only
      split
      · rfl
      · rfl
  · exact ⟨q, hq, endLine_blank hnil hl⟩

/-- A blank leaves the client in the blanks. -/
theorem Idle.feed (h : Idle p s) (hc : IsBlank c) : Idle p (s.feed c) := by
  obtain ⟨q, l, b, hq, hl, hb, rfl⟩ := h
  have hkept : c = ' ' ∨ c = '\t' → Idle p { q with line := l ++ [c], afterReturn := false } := by
    intro hc
    refine ⟨q, l ++ [c], false, hq, ?_, ?_, rfl⟩
    · intro c' hc'
      rcases List.mem_append.mp hc' with hc' | hc'
      · exact hl c' hc'
      · rwa [List.mem_singleton.mp hc']
    · intro h
      cases h
  obtain ⟨q', hq', hend⟩ := endLine_idle (b := b) hq hl
  rcases hc with rfl | rfl | rfl | rfl
  · exact hkept (Or.inl rfl)
  · exact hkept (Or.inr rfl)
  · rw [EventSource.feed, if_pos rfl]
    cases b with
    | true =>
      obtain rfl := hb rfl
      exact ⟨q, [], false, hq, fun c hc => absurd hc List.not_mem_nil, fun _ => rfl, rfl⟩
    | false =>
      rw [if_neg Bool.false_ne_true, hend]
      exact ⟨q', [], false, hq', fun c hc => absurd hc List.not_mem_nil, fun _ => rfl, rfl⟩
  · rw [EventSource.feed, if_neg (by decide), if_pos rfl, hend]
    exact ⟨q', [], true, hq', fun c hc => absurd hc List.not_mem_nil, fun _ => rfl, rfl⟩

theorem Idle.read (h : Idle p s) (ht : ∀ c ∈ t, IsBlank c) : Idle p (s.read t) := by
  induction t generalizing s with
  | nil => exact h
  | cons c t ih =>
    obtain ⟨hc, ht⟩ := List.forall_mem_cons.mp ht
    exact ih (h.feed hc) ht

theorem AtStart.feed (hp : AtStart p) : p.feed '\n' = p.dispatch := by
  rw [EventSource.feed, if_pos rfl, hp.2, if_neg Bool.false_ne_true, EventSource.endLine]
  dsimp only
  rw [if_pos hp.1]
  exact congrArg EventSource.dispatch (congrArg (fun l => { p with line := l }) hp.1.symm)

/-- Two line feeds behind the blanks leave the message dispatched, once. -/
theorem Idle.finish (h : Idle p s) (hp : AtStart p) : s.read ['\n', '\n'] = p.dispatch := by
  have hfirst : s.feed '\n' = p ∨ s.feed '\n' = p.dispatch := by
    obtain ⟨q, l, b, hq, hl, hb, rfl⟩ := h
    have hback : ∀ q', q' = p ∨ q' = p.dispatch →
        { q' with line := [], afterReturn := false } = p ∨
        { q' with line := [], afterReturn := false } = p.dispatch := by
      rintro q' (rfl | rfl)
      · exact Or.inl hp.eq
      · exact Or.inr hp.dispatch.eq
    rw [EventSource.feed, if_pos rfl]
    cases b with
    | true =>
      obtain rfl := hb rfl
      exact hback q hq
    | false =>
      obtain ⟨q', hq', hend⟩ := endLine_idle (b := false) hq hl
      rw [if_neg Bool.false_ne_true, hend]
      exact hback q' hq'
  rw [read_cons, read_cons]
  rcases hfirst with hfirst | hfirst
  · rw [hfirst, hp.feed]
    rfl
  · rw [hfirst, hp.dispatch.feed, dispatch_dispatch]
    rfl

end Blanks

section Events

variable {s : EventSource} {id name data extra value : Text}

private theorem processField_id (s : EventSource) (hvalue : Char.ofNat 0 ∉ value) :
    s.processField "id".toList value =
      { s with lastEventId := value, fields := s.fields ++ [("id".toList, value)] } := by
  unfold EventSource.processField
  dsimp only
  rw [if_neg (by decide), if_neg (by decide), if_pos rfl, if_neg hvalue]

private theorem processField_event (s : EventSource) : s.processField "event".toList value =
    { s with type := value, fields := s.fields ++ [("event".toList, value)] } := by
  unfold EventSource.processField
  dsimp only
  rw [if_pos rfl]

private theorem processField_data (s : EventSource) : s.processField "data".toList value =
    { s with
      data := s.data ++ value ++ ['\n']
      fields := s.fields ++ [("data".toList, value)] } := by
  unfold EventSource.processField
  dsimp only
  rw [if_neg (by decide), if_pos rfl]

private theorem AtStart.processField {field : Text} (h : AtStart s) :
    AtStart (s.processField field value) := by
  unfold EventSource.processField
  dsimp only
  split_ifs <;> exact h

/-- A line with a field, up to its end. -/
private theorem read_field {field : Text} (hs : AtStart s) (hne : field ≠ []) (hcolon : ':' ∉ field)
    (hfield : OneLine field) (hvalue : OneLine value) :
    s.read (field ++ ':' :: ' ' :: value) = { s with line := field ++ ':' :: ' ' :: value } ∧
      { s with line := field ++ ':' :: ' ' :: value }.endLine = s.processField field value := by
  have hline : OneLine (field ++ ':' :: ' ' :: value) := by
    have hsep : OneLine [':', ' '] := ⟨by decide, by decide⟩
    exact oneLine_append.mpr ⟨hfield, oneLine_append.mpr ⟨hsep, hvalue⟩⟩
  refine ⟨?_, ?_⟩
  · rw [read_oneLine hline hs.2, hs.1, List.nil_append]
  · rw [endLine_field hne hcolon rfl]
    refine congrArg (fun s : EventSource => s.processField field value) ?_
    exact congrArg (fun l => { s with line := l }) hs.1.symm

private theorem read_fieldLine (w : String) (hs : AtStart s) (hne : w.toList ≠ [])
    (hcolon : ':' ∉ w.toList)
    (hw : OneLine w.toList) (hvalue : OneLine value) (t : Text) :
    s.read (w.toList ++ ':' :: ' ' :: (value ++ '\n' :: t)) =
      (s.processField w.toList value).read t := by
  obtain ⟨hread, hend⟩ := read_field hs hne hcolon hw hvalue
  have hshape : w.toList ++ ':' :: ' ' :: (value ++ '\n' :: t) =
      (w.toList ++ ':' :: ' ' :: value) ++ '\n' :: t := by simp
  have hgo : ¬s.afterReturn = true := by
    rw [hs.2]
    exact Bool.false_ne_true
  rw [hshape, read_append, hread, read_cons, EventSource.feed, if_pos rfl, if_neg hgo, hend]

/-- What may stand behind the data of an event: nothing, or blanks from the end of the line on. -/
def Trailing (extra : Text) : Prop :=
  extra = [] ∨ ∃ c rest, extra = c :: rest ∧ (c = '\n' ∨ c = '\r') ∧ ∀ c ∈ rest, IsBlank c

/-- The data of an event with what stands behind it, up to the two line feeds of the server. -/
private theorem read_data (hs : AtStart s) (hdata : OneLine data) (hextra : Trailing extra)
    (t : Text) :
    s.read ("data".toList ++ ':' :: ' ' :: (data ++ (extra ++ '\n' :: '\n' :: t))) =
      (s.processField "data".toList data).dispatch.read t := by
  have hword : OneLine "data".toList := ⟨by decide, by decide⟩
  have hp : AtStart (s.processField "data".toList data) := hs.processField
  have hfinish : ∀ q rest, Idle (s.processField "data".toList data) q →
      (∀ c ∈ rest, IsBlank c) → q.read (rest ++ '\n' :: '\n' :: t) =
        (s.processField "data".toList data).dispatch.read t := by
    intro q rest hq hrest
    have hshape : rest ++ '\n' :: '\n' :: t = rest ++ (['\n', '\n'] ++ t) := rfl
    rw [hshape, read_append, read_append, (hq.read hrest).finish hp]
  rcases hextra with rfl | ⟨c, rest, rfl, rfl | rfl, hrest⟩
  · rw [List.nil_append, read_fieldLine "data" hs (by decide) (by decide) hword hdata, read_cons,
      hp.feed]
  · rw [List.cons_append, read_fieldLine "data" hs (by decide) (by decide) hword hdata]
    apply hfinish _ rest ?_ hrest
    exact ⟨_, [], false, Or.inl rfl, fun c hc => absurd hc List.not_mem_nil, fun _ => rfl,
      hp.eq.symm⟩
  · obtain ⟨hread, hend⟩ := read_field hs (by decide) (by decide) hword hdata
    have hshape : "data".toList ++ ':' :: ' ' :: (data ++ ('\r' :: rest ++ '\n' :: '\n' :: t)) =
        ("data".toList ++ ':' :: ' ' :: data) ++ '\r' :: (rest ++ '\n' :: '\n' :: t) := by
      rw [List.append_assoc, List.cons_append, List.cons_append, List.cons_append]
    rw [hshape, read_append, hread, read_cons, EventSource.feed, if_neg (by decide), if_pos rfl,
      hend]
    apply hfinish _ rest ?_ hrest
    refine ⟨_, [], true, Or.inl rfl, fun c hc => absurd hc List.not_mem_nil, fun _ => rfl, ?_⟩
    generalize s.processField "data".toList data = p at hp ⊢
    exact congrArg (fun l => { p with line := l, afterReturn := true }) hp.1

/-- The client reads an event as one message, and its fields are all that it sees. -/
theorem read_event (hs : Ready s) (hid : OneLine id) (hzero : Char.ofNat 0 ∉ id)
    (hname : OneLine name) (hne : name ≠ []) (hdata : OneLine data) (hextra : Trailing extra)
    (t : Text) :
    s.read ("id: ".toList ++ (id ++ '\n' :: ("event: ".toList ++ (name ++ '\n' ::
      ("data: ".toList ++ (data ++ (extra ++ '\n' :: '\n' :: t))))))) =
        (s.received ⟨name, data, id⟩).read t := by
  have hstart : AtStart s := ⟨hs.line, hs.afterReturn⟩
  have hidWord : "id: ".toList = "id".toList ++ [':', ' '] := by decide
  have heventWord : "event: ".toList = "event".toList ++ [':', ' '] := by decide
  have hdataWord : "data: ".toList = "data".toList ++ [':', ' '] := by decide
  have hjoin : ∀ w t : Text, w ++ [':', ' '] ++ t = w ++ ':' :: ' ' :: t := by
    intro w t
    rw [List.append_assoc]
    rfl
  rw [hidWord, heventWord, hdataWord, hjoin, hjoin, hjoin,
    read_fieldLine "id" hstart (by decide) (by decide) ⟨by decide, by decide⟩ hid,
    read_fieldLine "event" hstart.processField (by decide) (by decide) ⟨by decide, by decide⟩ hname,
    read_data hstart.processField.processField hdata hextra, processField_id s hzero,
    processField_event, processField_data]
  refine congrArg (fun s : EventSource => s.read t) ?_
  obtain ⟨b, line, oldData, type, lastId, fields, messages⟩ := s
  obtain ⟨rfl, rfl, rfl, rfl⟩ := hs
  unfold EventSource.dispatch EventSource.received fieldsOf
  simp [hne]

end Events

end Cyctron.Sse.EventStream
