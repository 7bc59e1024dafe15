/- Cyctron/Machine/LinkedQueue
   digest: A singly linked first-in first-out list with head and tail pointers in a store. -/

import Mathlib.Data.List.Nodup
import Mathlib.Data.List.Perm.Subperm
import Mathlib.Data.Fintype.EquivFin

set_option autoImplicit false
set_option relaxedAutoImplicit false

namespace Cyctron.Machine.LinkedQueue

universe u

/-- An allocated cell: its payload and its link. -/
structure Node (α : Type u) where
  val : α
  next : Option Nat

/-- The allocated cells by address; `none` as a link or a pointer is the null pointer. -/
abbrev Store (α : Type u) := List (Nat × Node α)

/-- Head and tail pointers into the store. -/
structure Fifo (α : Type u) where
  head : Option Nat
  tail : Option Nat
  store : Store α

variable {α : Type u}

/-- The cell at an address. -/
def Store.cell (st : Store α) (p : Nat) : Option (Node α) := st.lookup p

/-- Redirect the link of the cell at `t`. -/
def Store.link (st : Store α) (t p : Nat) : Store α :=
  st.map fun c => if c.1 = t then (c.1, { c.2 with next := some p }) else c

/-- Release the cell at `p`. -/
def Store.free (st : Store α) (p : Nat) : Store α := st.filter fun c => c.1 ≠ p

/-- Release every cell of a list of addresses. -/
def Store.freeAll (st : Store α) (ps : List Nat) : Store α := st.filter fun c => c.1 ∉ ps

/-- Follow the links from a pointer for at most the given number of cells. -/
def Store.walk (st : Store α) : Nat → Option Nat → List (Nat × α)
  | 0, _ => []
  | _ + 1, none => []
  | k + 1, some p => match st.cell p with
    | none => []
    | some n => (p, n.val) :: st.walk k n.next

/-- The chain of cells from a pointer. -/
def Store.chain (st : Store α) (p : Option Nat) : List (Nat × α) := st.walk st.length p

/-- `st.Seg p l`: following the links from `p` visits exactly the cells `l` and ends at null. -/
def Store.Seg (st : Store α) : Option Nat → List (Nat × α) → Prop
  | p, [] => p = none
  | p, (a, v) :: l => p = some a ∧ ∃ nx, st.cell a = some ⟨v, nx⟩ ∧ st.Seg nx l

def Fifo.empty : Fifo α := ⟨none, none, []⟩

/-- Append the cell `p` with payload `v`: link it behind the tail, or make it the head. -/
def Fifo.push (q : Fifo α) (p : Nat) (v : α) : Fifo α :=
  match q.tail with
  | some t => ⟨q.head, some p, (p, ⟨v, none⟩) :: q.store.link t p⟩
  | none => ⟨some p, some p, (p, ⟨v, none⟩) :: q.store⟩

/-- Unlink the head cell and hand its payload over; a queue left empty has a null tail. -/
def Fifo.pop (q : Fifo α) : Option (α × Fifo α) :=
  q.head.bind fun p => (q.store.cell p).map fun n =>
    (n.val, ⟨n.next, if n.next = none then none else q.tail, q.store.free p⟩)

/-- Reset both pointers and leave the cells to the holder of the old head. -/
def Fifo.detach (q : Fifo α) : Fifo α := ⟨none, none, q.store⟩

/-- Reset both pointers and release the cells of the chain. -/
def Fifo.clear (q : Fifo α) : Fifo α :=
  ⟨none, none, q.store.freeAll ((q.store.chain q.head).map Prod.fst)⟩

/-- The payloads of the chain from a pointer. -/
def Store.values (st : Store α) (p : Option Nat) : List α := (st.chain p).map Prod.snd

/-- The payloads from the head on. -/
def Fifo.contents (q : Fifo α) : List α := q.store.values q.head

/-- Release the first cell of a detached chain; the rest is `next`. -/
def Fifo.release (q : Fifo α) (p : Nat) : Fifo α := { q with store := q.store.free p }

/-- The tail points to the last cell of the chain, and is null for the empty chain. -/
def Fifo.TailAt (q : Fifo α) (l : List (Nat × α)) : Prop := q.tail = (l.map Prod.fst).getLast?

/-- The store consists of two disjoint finite chains: the queue, whose tail points to its
last cell, and a chain from `d` that was detached and not yet released. No cell is lost. -/
structure Fifo.Layout (q : Fifo α) (d : Option Nat) (l k : List (Nat × α)) : Prop where
  queue : q.store.Seg q.head l
  tail : q.TailAt l
  apart : q.store.Seg d k
  disjoint : (l.map Prod.fst).Disjoint (k.map Prod.fst)
  owned : ∀ c ∈ q.store, c.1 ∈ l.map Prod.fst ∨ c.1 ∈ k.map Prod.fst

def Fifo.Sound (q : Fifo α) (d : Option Nat) : Prop := ∃ l k, q.Layout d l k

section Cells

variable {st : Store α} {a b p t : Nat}

@[simp] theorem cell_cons (n : Node α) :
    Store.cell ((p, n) :: st) a = if a = p then some n else st.cell a := by
  by_cases h : a = p
  · simp [Store.cell, h]
  · have hne : (a == p) = false := by simpa using h
    simp [Store.cell, List.lookup_cons, h, hne]

theorem cell_link : (st.link t p).cell a =
    (st.cell a).map fun n => if a = t then { n with next := some p } else n := by
  induction st with
  | nil => rfl
  | cons c st ih =>
    obtain ⟨b, n⟩ := c
    have hcons : Store.link ((b, n) :: st) t p =
        (b, if b = t then { n with next := some p } else n) :: Store.link st t p := by
      by_cases hb : b = t <;> simp [Store.link, hb]
    rw [hcons, cell_cons, cell_cons, ih]
    by_cases ha : a = b
    · subst ha; simp
    · simp [ha]

theorem cell_free : (st.free p).cell a = if a = p then none else st.cell a := by
  induction st with
  | nil => simp [Store.free, Store.cell]
  | cons c st ih =>
    obtain ⟨b, n⟩ := c
    by_cases hb : b = p
    · have hcons : Store.free ((b, n) :: st) p = Store.free st p := by simp [Store.free, hb]
      rw [hcons, ih, cell_cons]
      by_cases ha : a = p <;> simp [ha, hb]
    · have hcons : Store.free ((b, n) :: st) p = (b, n) :: Store.free st p := by simp [Store.free, hb]
      rw [hcons, cell_cons, cell_cons, ih]
      by_cases ha : a = b
      · simp [ha, hb]
      · simp [ha]

theorem cell_freeAll (ps : List Nat) :
    (st.freeAll ps).cell a = if a ∈ ps then none else st.cell a := by
  induction st with
  | nil => simp [Store.freeAll, Store.cell]
  | cons c st ih =>
    obtain ⟨b, n⟩ := c
    by_cases hb : b ∈ ps
    · have hcons : Store.freeAll ((b, n) :: st) ps = Store.freeAll st ps := by simp [Store.freeAll, hb]
      rw [hcons, ih, cell_cons]
      by_cases ha : a = b
      · subst ha; simp [hb]
      · simp [ha]
    · have hcons : Store.freeAll ((b, n) :: st) ps = (b, n) :: Store.freeAll st ps := by
        simp [Store.freeAll, hb]
      rw [hcons, cell_cons, cell_cons, ih]
      by_cases ha : a = b
      · subst ha; simp [hb]
      · simp [ha]

theorem mem_addresses_of_cell {n : Node α} (h : st.cell a = some n) : a ∈ st.map Prod.fst := by
  induction st with
  | nil => simp [Store.cell] at h
  | cons c st ih =>
    obtain ⟨b, m⟩ := c
    rw [cell_cons] at h
    by_cases ha : a = b
    · simp [ha]
    · rw [if_neg ha] at h
      exact List.mem_cons_of_mem _ (ih h)

/-- Some address is not allocated. -/
theorem exists_fresh (st : Store α) : ∃ p, st.cell p = none := by
  obtain ⟨p, hp⟩ := Infinite.exists_notMem_finset (st.map Prod.fst).toFinset
  refine ⟨p, ?_⟩
  cases h : st.cell p with
  | none => rfl
  | some n => exact absurd (List.mem_toFinset.mpr (mem_addresses_of_cell h)) hp

end Cells

section Segments

variable {st st' : Store α} {p : Option Nat} {l l' : List (Nat × α)}

/-- A segment depends only on the cells that it visits. -/
theorem Seg.congr (h : st.Seg p l) (same : ∀ a ∈ l.map Prod.fst, st'.cell a = st.cell a) :
    st'.Seg p l := by
  induction l generalizing p with
  | nil => exact h
  | cons c l ih =>
    obtain ⟨a, v⟩ := c
    obtain ⟨rfl, nx, hcell, hseg⟩ := h
    refine ⟨rfl, nx, ?_, ih hseg fun b hb => same b (by simp [List.mem_map.mp hb])⟩
    rw [same a (by simp), hcell]

theorem Seg.unique (h : st.Seg p l) (h' : st.Seg p l') : l = l' := by
  induction l generalizing p l' with
  | nil =>
    cases l' with
    | nil => rfl
    | cons c l' => rw [show p = none from h] at h'; exact absurd h'.1 (by simp)
  | cons c l ih =>
    obtain ⟨a, v⟩ := c
    obtain ⟨rfl, nx, hcell, hseg⟩ := h
    cases l' with
    | nil => exact absurd h' (by simp [Store.Seg])
    | cons c' l' =>
      obtain ⟨b, w⟩ := c'
      obtain ⟨hb, nx', hcell', hseg'⟩ := h'
      obtain rfl := Option.some.inj hb
      rw [hcell] at hcell'
      obtain ⟨rfl, rfl⟩ : v = w ∧ nx = nx' := by simpa using hcell'
      rw [ih hseg hseg']

theorem Seg.suffix {x y : List (Nat × α)} (h : st.Seg p (x ++ y)) : ∃ q, st.Seg q y := by
  induction x generalizing p with
  | nil => exact ⟨p, h⟩
  | cons c x ih =>
    obtain ⟨_, nx, _, hseg⟩ := h
    exact ih hseg

/-- A chain that ends visits no cell twice: from a cell on, the chain is determined. -/
theorem Seg.nodup (h : st.Seg p l) : (l.map Prod.fst).Nodup := by
  induction l generalizing p with
  | nil => simp
  | cons c l ih =>
    obtain ⟨a, v⟩ := c
    have hfull := h
    obtain ⟨rfl, nx, hcell, hseg⟩ := h
    rw [List.map_cons, List.nodup_cons]
    refine ⟨?_, ih hseg⟩
    intro hmem
    obtain ⟨⟨b, w⟩, hb, hab⟩ := List.mem_map.mp hmem
    obtain rfl : b = a := hab
    obtain ⟨x, y, rfl⟩ := List.append_of_mem hb
    obtain ⟨q, hq⟩ := Seg.suffix hseg
    obtain rfl : q = some b := hq.1
    have hlen := congrArg List.length (Seg.unique hfull hq)
    simp only [List.length_cons, List.length_append] at hlen
    omega

theorem Seg.walk_eq (h : st.Seg p l) {k : Nat} (hk : l.length ≤ k) : st.walk k p = l := by
  induction l generalizing p k with
  | nil =>
    rw [show p = none from h]
    cases k <;> rfl
  | cons c l ih =>
    obtain ⟨a, v⟩ := c
    obtain ⟨rfl, nx, hcell, hseg⟩ := h
    cases k with
    | zero => simp at hk
    | succ k =>
      simp only [List.length_cons, Nat.add_le_add_iff_right] at hk
      simp only [Store.walk, hcell, ih hseg hk]

theorem Seg.addresses_subset (h : st.Seg p l) : l.map Prod.fst ⊆ st.map Prod.fst := by
  induction l generalizing p with
  | nil => simp
  | cons c l ih =>
    obtain ⟨a, v⟩ := c
    obtain ⟨rfl, nx, hcell, hseg⟩ := h
    rw [List.map_cons]
    exact List.cons_subset.mpr ⟨mem_addresses_of_cell hcell, ih hseg⟩

/-- The chain function computes the segment. -/
theorem Seg.chain_eq (h : st.Seg p l) : st.chain p = l := by
  refine Seg.walk_eq h ?_
  have hle := (List.Nodup.subperm (Seg.nodup h) (Seg.addresses_subset h)).length_le
  simpa using hle

/-- Linking a fresh cell behind the last one appends it. -/
theorem Seg.snoc {t p : Nat} {v : α} {h : Option Nat}
    (seg : st.Seg h l) (last : (l.map Prod.fst).getLast? = some t) (fresh : st.cell p = none) :
    Store.Seg ((p, ⟨v, none⟩) :: st.link t p) h (l ++ [(p, v)]) := by
  induction l generalizing h with
  | nil => simp at last
  | cons c l ih =>
    obtain ⟨a, w⟩ := c
    have hnodup := Seg.nodup seg
    obtain ⟨rfl, nx, hcell, hseg⟩ := seg
    have hap : a ≠ p := by rintro rfl; rw [fresh] at hcell; cases hcell
    cases l with
    | nil =>
      obtain rfl : a = t := by simpa using last
      refine ⟨rfl, some p, ?_, rfl, none, by simp, rfl⟩
      simp [cell_cons, cell_link, hap, hcell]
    | cons c' l =>
      have hlast : ((c' :: l).map Prod.fst).getLast? = some t := by
        simpa [List.getLast?_cons_cons] using last
      have hat : a ≠ t := by
        rintro rfl
        exact (List.nodup_cons.mp hnodup).1 (List.mem_of_getLast? hlast)
      refine ⟨rfl, nx, ?_, ih hseg hlast⟩
      simp [cell_cons, cell_link, hap, hcell, hat]

end Segments

section Operations

variable {q q' : Fifo α} {l k : List (Nat × α)} {d : Option Nat} {p : Nat} {v : α}

theorem Seg.values_eq {st : Store α} (h : st.Seg d l) : st.values d = l.map Prod.snd := by
  rw [Store.values, Seg.chain_eq h]

theorem Fifo.Layout.contents_eq (h : q.Layout d l k) : q.contents = l.map Prod.snd :=
  Seg.values_eq h.queue

theorem Fifo.Layout.values_eq (h : q.Layout d l k) : q.store.values d = k.map Prod.snd :=
  Seg.values_eq h.apart

theorem sound_empty : (Fifo.empty : Fifo α).Sound none :=
  ⟨[], [], rfl, rfl, rfl, by simp, by simp [Fifo.empty]⟩

@[simp] theorem contents_empty : (Fifo.empty : Fifo α).contents = [] := rfl

@[simp] theorem values_none (st : Store α) : st.values none = [] :=
  Seg.values_eq (l := []) rfl

/-- With a tail at the last cell the pointers are null together, for the empty list only. -/
theorem Fifo.Sound.null_iff (h : q.Sound d) :
    (q.tail = none ↔ q.head = none) ∧ (q.head = none ↔ q.contents = []) := by
  obtain ⟨l, k, lay⟩ := h
  rw [lay.contents_eq, lay.tail]
  have seg := lay.queue
  cases l with
  | nil => exact ⟨by simp [show q.head = none from seg], by simp [show q.head = none from seg]⟩
  | cons c l => simp [show q.head = some c.1 from seg.1]

/-- The chain from the head ends, and the tail is the address of its last cell. -/
theorem Fifo.Sound.tail_eq (h : q.Sound d) :
    q.store.Seg q.head (q.store.chain q.head) ∧
      q.tail = ((q.store.chain q.head).map Prod.fst).getLast? := by
  obtain ⟨l, k, lay⟩ := h
  rw [Seg.chain_eq lay.queue]
  exact ⟨lay.queue, lay.tail⟩

theorem fresh_not_mem {st : Store α} (h : st.Seg d l) (fresh : st.cell p = none) :
    p ∉ l.map Prod.fst := by
  induction l generalizing d with
  | nil => simp
  | cons c l ih =>
    obtain ⟨a, w⟩ := c
    obtain ⟨rfl, nx, hcell, hseg⟩ := h
    have hpa : p ≠ a := by rintro rfl; rw [fresh] at hcell; cases hcell
    simpa [hpa] using ih hseg

theorem Fifo.Layout.push (h : q.Layout d l k) (fresh : q.store.cell p = none) :
    (q.push p v).Layout d (l ++ [(p, v)]) k := by
  have hpk := fresh_not_mem h.apart fresh
  have hdis : ((l ++ [(p, v)]).map Prod.fst).Disjoint (k.map Prod.fst) := by
    intro a ha hk
    rcases List.mem_append.mp (by simpa using ha : a ∈ l.map Prod.fst ++ [p]) with ha | ha
    · exact h.disjoint ha hk
    · exact hpk (List.mem_singleton.mp ha ▸ hk)
  cases ht : q.tail with
  | none =>
    have hl : l = [] := by simpa [Fifo.TailAt, ht] using h.tail.symm
    subst hl
    simp only [Fifo.push, ht]
    refine ⟨⟨rfl, none, by simp, rfl⟩, by simp [Fifo.TailAt], ?_, hdis, ?_⟩
    · refine Seg.congr h.apart fun a ha => ?_
      have hap : a ≠ p := by rintro rfl; exact hpk ha
      simp [hap]
    · intro c hc
      rcases List.mem_cons.mp hc with rfl | hc
      · simp
      · simpa using Or.inr ((h.owned c hc).resolve_left (by simp))
  | some t =>
    have hlast : (l.map Prod.fst).getLast? = some t := by rw [← ht]; exact h.tail.symm
    simp only [Fifo.push, ht]
    refine ⟨Seg.snoc h.queue hlast fresh, by simp [Fifo.TailAt], ?_, hdis, ?_⟩
    · -- the redirected link is the queue's last one, so the detached chain keeps its cells
      refine Seg.congr h.apart fun a ha => ?_
      have hap : a ≠ p := by rintro rfl; exact hpk ha
      have hat : a ≠ t := by rintro rfl; exact h.disjoint (List.mem_of_getLast? hlast) ha
      simp [cell_link, hap, hat]
    · intro c hc
      rcases List.mem_cons.mp hc with rfl | hc
      · simp
      · obtain ⟨c', hc', rfl⟩ := List.mem_map.mp hc
        have hadr : (if c'.1 = t then (c'.1, { c'.2 with next := some p }) else c').1 = c'.1 := by
          split <;> rfl
        rw [hadr]
        rcases h.owned c' hc' with ho | ho
        · exact Or.inl (by simpa using Or.inl (List.mem_map.mp ho))
        · exact Or.inr ho

theorem Fifo.Sound.push (h : q.Sound d) (fresh : q.store.cell p = none) :
    (q.push p v).Sound d := by
  obtain ⟨l, k, lay⟩ := h
  exact ⟨_, _, lay.push fresh⟩

theorem contents_push (h : q.Sound d) (fresh : q.store.cell p = none) :
    (q.push p v).contents = q.contents ++ [v] := by
  obtain ⟨l, k, lay⟩ := h
  rw [(lay.push fresh).contents_eq, lay.contents_eq]
  simp

theorem values_push (h : q.Sound d) (fresh : q.store.cell p = none) :
    (q.push p v).store.values d = q.store.values d := by
  obtain ⟨l, k, lay⟩ := h
  rw [(lay.push fresh).values_eq, lay.values_eq]

theorem Fifo.Layout.pop (h : q.Layout d l k) (hpop : q.pop = some (v, q')) :
    ∃ a rest, l = (a, v) :: rest ∧ q'.Layout d rest k := by
  cases l with
  | nil => simp [Fifo.pop, show q.head = none from h.queue] at hpop
  | cons c rest =>
    obtain ⟨a, w⟩ := c
    have hnodup := Seg.nodup h.queue
    obtain ⟨hhead, nx, hcell, hseg⟩ := h.queue
    simp only [Fifo.pop, hhead, Option.bind_some, hcell, Option.map_some, Option.some.injEq,
      Prod.mk.injEq] at hpop
    obtain ⟨rfl, rfl⟩ := hpop
    have hka : a ∉ k.map Prod.fst := fun ha => h.disjoint (by simp) ha
    refine ⟨a, rest, rfl, ?_, ?_, ?_, ?_, ?_⟩
    · refine Seg.congr hseg fun b hb => ?_
      have hba : b ≠ a := by rintro rfl; exact (List.nodup_cons.mp hnodup).1 hb
      simp [cell_free, hba]
    · cases rest with
      | nil => simp [Fifo.TailAt, show nx = none from hseg]
      | cons c' rest =>
        have hnx : nx = some c'.1 := hseg.1
        have ht : q.tail = (((a, w) :: c' :: rest).map Prod.fst).getLast? := h.tail
        simp only [Fifo.TailAt, hnx, reduceCtorEq, if_false, ht]
        simp [List.getLast?_cons_cons]
    · refine Seg.congr h.apart fun b hb => ?_
      have hba : b ≠ a := by rintro rfl; exact hka hb
      simp [cell_free, hba]
    · intro b hb hk
      exact h.disjoint (List.mem_cons_of_mem _ hb) hk
    · intro c hc
      obtain ⟨hc, hca⟩ := List.mem_filter.mp hc
      have hne : c.1 ≠ a := by simpa using hca
      rcases h.owned c hc with ho | ho
      · rw [List.map_cons] at ho
        exact Or.inl ((List.mem_cons.mp ho).resolve_left hne)
      · exact Or.inr ho

theorem Fifo.Sound.pop (h : q.Sound d) (hpop : q.pop = some (v, q')) : q'.Sound d := by
  obtain ⟨l, k, lay⟩ := h
  obtain ⟨_, rest, _, lay'⟩ := lay.pop hpop
  exact ⟨rest, k, lay'⟩

theorem contents_pop (h : q.Sound d) (hpop : q.pop = some (v, q')) :
    q.contents = v :: q'.contents := by
  obtain ⟨l, k, lay⟩ := h
  obtain ⟨a, rest, rfl, lay'⟩ := lay.pop hpop
  rw [lay.contents_eq, lay'.contents_eq]
  simp

theorem Fifo.Sound.pop_some (h : q.Sound d) (hne : q.head ≠ none) :
    ∃ v q', q.pop = some (v, q') := by
  obtain ⟨l, k, lay⟩ := h
  have seg := lay.queue
  cases l with
  | nil => exact (hne seg).elim
  | cons c l =>
    obtain ⟨hhead, nx, hcell, _⟩ := seg
    simp [Fifo.pop, hhead, hcell]

theorem pop_none_of_head (h : q.head = none) : q.pop = none := by simp [Fifo.pop, h]

/-- Detaching turns the whole queue into the detached chain. -/
theorem Fifo.Sound.detach (h : q.Sound none) : q.detach.Sound q.head := by
  obtain ⟨l, k, lay⟩ := h
  obtain rfl : k = [] := by
    cases k with
    | nil => rfl
    | cons c k => exact absurd lay.apart.1 (by simp)
  refine ⟨[], l, rfl, rfl, lay.queue, by simp, fun c hc => Or.inr ?_⟩
  exact (lay.owned c hc).resolve_right (by simp)

@[simp] theorem contents_detach : q.detach.contents = [] := values_none _

/-- Releasing the first detached cell leaves the rest detached and the queue as it is. -/
theorem Fifo.Layout.release (h : q.Layout (some p) l k) :
    ∃ n rest, q.store.cell p = some n ∧ k = (p, n.val) :: rest ∧
      (q.release p).Layout n.next l rest := by
  cases k with
  | nil => exact absurd h.apart (by simp [Store.Seg])
  | cons c rest =>
    obtain ⟨a, w⟩ := c
    have hnodup := Seg.nodup h.apart
    obtain ⟨ha, nx, hcell, hseg⟩ := h.apart
    obtain rfl := Option.some.inj ha
    have hla : p ∉ l.map Prod.fst := fun hl => h.disjoint hl (by simp)
    refine ⟨⟨w, nx⟩, rest, hcell, rfl, ?_, h.tail, ?_, ?_, ?_⟩
    · refine Seg.congr h.queue fun b hb => ?_
      have hbp : b ≠ p := by rintro rfl; exact hla hb
      simp [Fifo.release, cell_free, hbp]
    · refine Seg.congr hseg fun b hb => ?_
      have hbp : b ≠ p := by rintro rfl; exact (List.nodup_cons.mp hnodup).1 hb
      simp [Fifo.release, cell_free, hbp]
    · intro b hb hk
      exact h.disjoint hb (List.mem_cons_of_mem _ hk)
    · intro c hc
      obtain ⟨hc, hcp⟩ := List.mem_filter.mp hc
      have hne : c.1 ≠ p := by simpa using hcp
      rcases h.owned c hc with ho | ho
      · exact Or.inl ho
      · rw [List.map_cons] at ho
        exact Or.inr ((List.mem_cons.mp ho).resolve_left hne)

theorem Fifo.Sound.release (h : q.Sound (some p)) :
    ∃ n, q.store.cell p = some n ∧ (q.release p).Sound n.next ∧
      q.store.values (some p) = n.val :: (q.release p).store.values n.next ∧
      (q.release p).contents = q.contents := by
  obtain ⟨l, k, lay⟩ := h
  obtain ⟨n, rest, hcell, rfl, lay'⟩ := lay.release
  refine ⟨n, hcell, ⟨_, _, lay'⟩, ?_, ?_⟩
  · rw [lay.values_eq, lay'.values_eq]; rfl
  · rw [lay.contents_eq, lay'.contents_eq]

theorem Fifo.Layout.clear (h : q.Layout d l k) : q.clear.Layout d [] k := by
  have hchain := Seg.chain_eq h.queue
  refine ⟨rfl, rfl, ?_, by simp, ?_⟩
  · refine Seg.congr h.apart fun a ha => ?_
    have hal : a ∉ l.map Prod.fst := fun hl => h.disjoint hl ha
    simp only [Fifo.clear, hchain, cell_freeAll, if_neg hal]
  · intro c hc
    simp only [Fifo.clear, hchain] at hc
    obtain ⟨hc, hcl⟩ := List.mem_filter.mp hc
    exact Or.inr ((h.owned c hc).resolve_left (by simpa using hcl))

theorem Fifo.Sound.clear (h : q.Sound d) : q.clear.Sound d := by
  obtain ⟨l, k, lay⟩ := h
  exact ⟨_, _, lay.clear⟩

@[simp] theorem contents_clear : q.clear.contents = [] := values_none _

/-- An empty queue with nothing detached has no cell. -/
theorem eq_empty_of_contents (h : q.Sound none) (hc : q.contents = []) : q = Fifo.empty := by
  have hhead := h.null_iff.2.mpr hc
  have htail := h.null_iff.1.mpr hhead
  obtain ⟨l, k, lay⟩ := h
  have hl : l = [] := by
    have hmap := lay.contents_eq
    rw [hc] at hmap
    exact List.map_eq_nil_iff.mp hmap.symm
  have hk : k = [] := by
    cases k with
    | nil => rfl
    | cons c k => exact absurd lay.apart.1 (by simp)
  subst hl hk
  have hstore : q.store = [] :=
    List.eq_nil_iff_forall_not_mem.mpr fun c hcell => absurd (lay.owned c hcell) (by simp)
  calc q = ⟨q.head, q.tail, q.store⟩ := rfl
    _ = Fifo.empty := by rw [hhead, htail, hstore]; rfl

end Operations

end Cyctron.Machine.LinkedQueue
