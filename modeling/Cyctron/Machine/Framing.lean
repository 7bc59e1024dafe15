/- Cyctron/Machine/Framing
   digest: Readers that take records off the front of a stream, and why its cuts do not matter. -/

import Mathlib.Data.List.Basic

set_option autoImplicit false
set_option relaxedAutoImplicit false

namespace Cyctron.Machine.Framing

universe u v w x

/-- What one record does: the next state, what it reports, and its length. -/
structure Record (σ : Type u) (ε : Type w) where
  state : σ
  reports : List ε
  length : Nat

/-- A reader finds a record at the front of the unread input, or waits for more; a record that is
there stays the same whatever arrives behind it. -/
structure Reader (σ : Type u) (β : Type v) (ε : Type w) where
  next : σ → List β → Option (Record σ ε)
  advances : ∀ {s b r}, next s b = some r → 0 < r.length ∧ r.length ≤ b.length
  stable : ∀ {s b r} (c : List β), next s b = some r → next s (b ++ c) = some r

/-- Where a reader stands: its state and the unread input. -/
structure Place (σ : Type u) (β : Type v) where
  state : σ
  unread : List β
  deriving DecidableEq

variable {σ : Type u} {β : Type v} {ε : Type w} {τ : Type x} {α : Type*}

/-- At most this many records. -/
def Reader.drainUpTo (R : Reader σ β ε) : Nat → Place σ β → Place σ β × List ε
  | 0, p => (p, [])
  | n + 1, p =>
    match R.next p.state p.unread with
    | none => (p, [])
    | some r =>
      let q := R.drainUpTo n ⟨r.state, p.unread.drop r.length⟩
      (q.1, r.reports ++ q.2)

/-- All records that have arrived. -/
def Reader.drain (R : Reader σ β ε) (p : Place σ β) : Place σ β × List ε :=
  R.drainUpTo p.unread.length p

/-- One more piece of the stream. -/
def Reader.feed (R : Reader σ β ε) (p : Place σ β) (chunk : List β) : Place σ β × List ε :=
  R.drain ⟨p.state, p.unread ++ chunk⟩

def Reader.feedAll (R : Reader σ β ε) : Place σ β → List (List β) → Place σ β × List ε
  | p, [] => (p, [])
  | p, chunk :: chunks =>
    let r := R.feed p chunk
    let q := R.feedAll r.1 chunks
    (q.1, r.2 ++ q.2)

/-- A reader waits where it finds no record. -/
def Reader.Waits (R : Reader σ β ε) (p : Place σ β) : Prop := R.next p.state p.unread = none

section Draining

variable {R : Reader σ β ε} {p : Place σ β} {r : Record σ ε}

theorem Reader.waits_nil (s : σ) : R.Waits ⟨s, []⟩ := by
  rw [Waits]
  cases h : R.next s [] with
  | none => rfl
  | some r =>
    have := R.advances h
    simp only [List.length_nil] at this
    omega

theorem Reader.drainUpTo_waits (h : R.Waits p) (n : Nat) : R.drainUpTo n p = (p, []) := by
  cases n with
  | zero => rfl
  | succ n =>
    rw [Waits] at h
    rw [drainUpTo, h]

theorem Reader.drainUpTo_next (h : R.next p.state p.unread = some r) (n : Nat) :
    R.drainUpTo (n + 1) p =
      ((R.drainUpTo n ⟨r.state, p.unread.drop r.length⟩).1,
        r.reports ++ (R.drainUpTo n ⟨r.state, p.unread.drop r.length⟩).2) := by
  rw [drainUpTo, h]

/-- There are no more records than elements, so a larger bound changes nothing. -/
theorem Reader.drainUpTo_enough (n : Nat) (p : Place σ β) (h : p.unread.length ≤ n) :
    R.drainUpTo n p = R.drain p := by
  induction hlen : p.unread.length using Nat.strongRecOn generalizing n p with
  | ind k ih =>
    subst hlen
    cases hn : R.next p.state p.unread with
    | none => rw [drain, drainUpTo_waits hn, drainUpTo_waits hn]
    | some r =>
      obtain ⟨hpos, hle⟩ := R.advances hn
      have hdrop : (p.unread.drop r.length).length < p.unread.length := by
        rw [List.length_drop]
        omega
      obtain ⟨m, rfl⟩ : ∃ m, n = m + 1 := ⟨n - 1, by omega⟩
      obtain ⟨k, hk⟩ : ∃ k, p.unread.length = k + 1 := ⟨p.unread.length - 1, by omega⟩
      have hm := ih _ hdrop m ⟨r.state, p.unread.drop r.length⟩
        (by dsimp only; omega) rfl
      have hk' := ih _ hdrop k ⟨r.state, p.unread.drop r.length⟩
        (by dsimp only; omega) rfl
      rw [drain, hk, drainUpTo_next hn, drainUpTo_next hn, hm, hk']

theorem Reader.drain_waits (h : R.Waits p) : R.drain p = (p, []) := drainUpTo_waits h _

/-- The records are read one after the other. -/
theorem Reader.drain_next (h : R.next p.state p.unread = some r) :
    R.drain p =
      ((R.drain ⟨r.state, p.unread.drop r.length⟩).1,
        r.reports ++ (R.drain ⟨r.state, p.unread.drop r.length⟩).2) := by
  obtain ⟨hpos, hle⟩ := R.advances h
  obtain ⟨k, hk⟩ : ∃ k, p.unread.length = k + 1 := ⟨p.unread.length - 1, by omega⟩
  rw [drain, hk, drainUpTo_next h, drainUpTo_enough]
  rw [List.length_drop]
  omega

/-- What holds of a place where the reader waits, and is passed on from behind a record, holds. -/
theorem Reader.drain_induction (R : Reader σ β ε) {P : Place σ β → Prop}
    (waits : ∀ p, R.Waits p → P p)
    (next : ∀ p r, R.next p.state p.unread = some r →
      P ⟨r.state, p.unread.drop r.length⟩ → P p) (p : Place σ β) : P p := by
  induction hlen : p.unread.length using Nat.strongRecOn generalizing p with
  | ind k ih =>
    subst hlen
    cases hn : R.next p.state p.unread with
    | none => exact waits p hn
    | some r =>
      obtain ⟨hpos, hle⟩ := R.advances hn
      refine next p r hn (ih _ ?_ _ rfl)
      rw [List.length_drop]
      omega

/-- After a drain the reader waits. -/
theorem Reader.drained (p : Place σ β) : R.Waits (R.drain p).1 := by
  induction p using R.drain_induction with
  | waits p h => rw [drain_waits h]; exact h
  | next p r h ih => rw [drain_next h]; exact ih

/-- A drain of two pieces is a drain of the first and then of what it leaves with the second. -/
theorem Reader.drain_append (p : Place σ β) (c : List β) :
    R.drain ⟨p.state, p.unread ++ c⟩ =
      ((R.feed (R.drain p).1 c).1, (R.drain p).2 ++ (R.feed (R.drain p).1 c).2) := by
  induction p using R.drain_induction with
  | waits p h =>
    rw [drain_waits h]
    rfl
  | next p r h ih =>
    have happ := R.stable c h
    rw [drain_next h, drain_next (p := ⟨p.state, p.unread ++ c⟩) happ]
    dsimp only
    rw [List.drop_append_of_le_length (R.advances h).2, ih, List.append_assoc]

/-- The cuts of a stream do not matter. -/
theorem Reader.feedAll_flatten (h : R.Waits p) (chunks : List (List β)) :
    R.feedAll p chunks = R.feed p chunks.flatten := by
  induction chunks generalizing p with
  | nil =>
    rw [feedAll, feed, List.flatten_nil, List.append_nil, drain_waits h]
  | cons chunk chunks ih =>
    have happ := R.drain_append ⟨p.state, p.unread ++ chunk⟩ chunks.flatten
    rw [List.append_assoc] at happ
    rw [feedAll, List.flatten_cons, feed, feed, happ]
    rw [ih (drained _)]

/-- Two sequences of pieces with the same content are read alike. -/
theorem Reader.feedAll_congr (h : R.Waits p) {chunks chunks' : List (List β)}
    (same : chunks.flatten = chunks'.flatten) : R.feedAll p chunks = R.feedAll p chunks' := by
  rw [feedAll_flatten h, feedAll_flatten h, same]

end Draining

section Writing

variable {R : Reader σ β ε}

/-- What a list of items does, one after the other. -/
def play (act : σ → α → σ × List ε) : σ → List α → σ × List ε
  | s, [] => (s, [])
  | s, a :: as =>
    let r := act s a
    let q := play act r.1 as
    (q.1, r.2 ++ q.2)

theorem play_append (act : σ → α → σ × List ε) (s : σ) (as bs : List α) :
    play act s (as ++ bs) =
      ((play act (play act s as).1 bs).1, (play act s as).2 ++ (play act (play act s as).1 bs).2) := by
  induction as generalizing s with
  | nil => rfl
  | cons a as ih =>
    rw [List.cons_append, play, ih, play]
    dsimp only
    rw [List.append_assoc]

/-- The reader gets back each item that is written, and acts on it. -/
def Reader.Reads (R : Reader σ β ε) (good : α → Prop) (write : α → List β)
    (act : σ → α → σ × List ε) : Prop :=
  ∀ s a rest, good a →
    R.next s (write a ++ rest) = some ⟨(act s a).1, (act s a).2, (write a).length⟩

variable {good : α → Prop} {write : α → List β} {act : σ → α → σ × List ε}

theorem Reader.Reads.drain (h : R.Reads good write act) {as : List α} (hgood : ∀ a ∈ as, good a)
    (s : σ) (rest : List β) :
    R.drain ⟨s, as.flatMap write ++ rest⟩ =
      ((R.drain ⟨(play act s as).1, rest⟩).1,
        (play act s as).2 ++ (R.drain ⟨(play act s as).1, rest⟩).2) := by
  induction as generalizing s with
  | nil => rfl
  | cons a as ih =>
    have hnext := h s a (as.flatMap write ++ rest) (hgood a List.mem_cons_self)
    rw [List.flatMap_cons, List.append_assoc, Reader.drain_next hnext, play]
    dsimp only
    rw [List.drop_left, ih (fun b hb => hgood b (List.mem_cons_of_mem a hb)), List.append_assoc]

/-- What was written is read, however the stream is cut. -/
theorem Reader.Reads.feedAll (h : R.Reads good write act) {as : List α}
    (hgood : ∀ a ∈ as, good a) {chunks : List (List β)} (same : chunks.flatten = as.flatMap write)
    (s : σ) : R.feedAll ⟨s, []⟩ chunks = (⟨(play act s as).1, []⟩, (play act s as).2) := by
  rw [feedAll_flatten (R.waits_nil s), Reader.feed, List.nil_append, same,
    ← List.append_nil (as.flatMap write), h.drain hgood, drain_waits (R.waits_nil _), List.append_nil]

/-- A stream that ends within what was written ends behind some items, within the next one; there
the reader waits. -/
theorem Reader.Reads.cut (h : R.Reads good write act) {as : List α} (hgood : ∀ a ∈ as, good a)
    {p rest : List β} (same : p ++ rest = as.flatMap write) :
    ∃ done todo part, as = done ++ todo ∧ p = done.flatMap write ++ part ∧
      part ++ rest = todo.flatMap write ∧ (∀ s, R.Waits ⟨s, part⟩) ∧
      (part = [] ∨ ∃ a ∈ todo.head?, part.length < (write a).length) := by
  induction as generalizing p with
  | nil =>
    obtain ⟨rfl, rfl⟩ := List.append_eq_nil_iff.mp same
    exact ⟨[], [], [], rfl, rfl, rfl, R.waits_nil, Or.inl rfl⟩
  | cons a as ih =>
    rw [List.flatMap_cons] at same
    by_cases hshort : p.length < (write a).length
    · refine ⟨[], a :: as, p, rfl, rfl, same, fun s => ?_, Or.inr ⟨a, rfl, hshort⟩⟩
      -- a record within an item would stay when the rest of the item arrives
      obtain ⟨c, hc⟩ : p <+: write a :=
        List.prefix_of_prefix_length_le (same ▸ List.prefix_append p rest)
          (List.prefix_append (write a) _) (Nat.le_of_lt hshort)
      rw [Waits]
      cases hn : R.next s p with
      | none => rfl
      | some r =>
        have hwhole := h s a [] (hgood a List.mem_cons_self)
        have hstay := R.stable c hn
        rw [hc] at hstay
        rw [List.append_nil, hstay] at hwhole
        have hlen := (R.advances hn).2
        rw [Option.some.inj hwhole] at hlen
        exact absurd hshort (Nat.not_lt.mpr hlen)
    · obtain ⟨p, rfl⟩ : write a <+: p :=
        List.prefix_of_prefix_length_le (List.prefix_append (write a) _)
          (same ▸ List.prefix_append p rest) (Nat.le_of_not_lt hshort)
      rw [List.append_assoc] at same
      obtain ⟨done, todo, part, rfl, rfl, hrest, hwaits, hpart⟩ :=
        ih (fun b hb => hgood b (List.mem_cons_of_mem a hb)) (List.append_cancel_left same)
      refine ⟨a :: done, todo, part, rfl, ?_, hrest, hwaits, hpart⟩
      rw [List.flatMap_cons, List.append_assoc]

end Writing

section Implementing

/-- A loop that makes steps while it can, at most this many. -/
def loop (step : τ → Option (τ × List ε)) : Nat → τ → τ × List ε
  | 0, t => (t, [])
  | n + 1, t =>
    match step t with
    | none => (t, [])
    | some r =>
      let q := loop step n r.1
      (q.1, r.2 ++ q.2)

/-- On the store of a place the step of a program does what the reader does there. -/
def Reader.Implements (R : Reader σ β ε) (step : τ → Option (τ × List ε))
    (store : Place σ β → τ) : Prop :=
  ∀ p, step (store p) = (R.next p.state p.unread).map fun r =>
    (store ⟨r.state, p.unread.drop r.length⟩, r.reports)

variable {R : Reader σ β ε} {step : τ → Option (τ × List ε)} {store : Place σ β → τ}

theorem Reader.Implements.loop (h : R.Implements step store) (n : Nat) (p : Place σ β) :
    loop step n (store p) = (store (R.drainUpTo n p).1, (R.drainUpTo n p).2) := by
  induction n generalizing p with
  | zero => rfl
  | succ n ih =>
    have hstep := h p
    rw [Framing.loop]
    cases hn : R.next p.state p.unread with
    | none =>
      rw [hn, Option.map_none] at hstep
      rw [hstep, drainUpTo_waits hn]
    | some r =>
      rw [hn, Option.map_some] at hstep
      rw [hstep, drainUpTo_next hn]
      dsimp only
      rw [ih]

/-- With a bound of at least the unread input, the loop drains it. -/
theorem Reader.Implements.loop_drain (h : R.Implements step store) {n : Nat} {p : Place σ β}
    (enough : p.unread.length ≤ n) :
    Framing.loop step n (store p) = (store (R.drain p).1, (R.drain p).2) := by
  rw [h.loop, drainUpTo_enough n _ enough]

end Implementing

end Cyctron.Machine.Framing
