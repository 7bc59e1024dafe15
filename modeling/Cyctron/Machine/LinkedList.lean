/- Cyctron/Machine/LinkedList
   digest: A singly linked list with a head pointer: insertion in front, update and unlinking. -/

import Cyctron.Machine.LinkedQueue

set_option autoImplicit false
set_option relaxedAutoImplicit false

namespace Cyctron.Machine.LinkedList

open Cyctron.Machine.LinkedQueue

universe u

variable {α : Type u}

/-- Change the payload of the cell at `p`. -/
def modify (st : Store α) (p : Nat) (f : α → α) : Store α :=
  st.map fun c => if c.1 = p then (c.1, { c.2 with val := f c.2.val }) else c

/-- Redirect the link of the cell at `q`. -/
def setNext (st : Store α) (q : Nat) (nx : Option Nat) : Store α :=
  st.map fun c => if c.1 = q then (c.1, { c.2 with next := nx }) else c

/-- The pointer `prev` of a loop along the addresses when it meets `p`. -/
def before (p : Nat) : Option Nat → List Nat → Option (Option Nat)
  | _, [] => none
  | prev, a :: l => if a = p then some prev else before p (some a) l

/-- Take the cell at `p` off the list with this head, which fails when it is not on it. -/
def unlink (st : Store α) (head : Option Nat) (p : Nat) : Option (Option Nat × Store α) :=
  (before p none ((st.chain head).map Prod.fst)).bind fun prev => (st.cell p).map fun n =>
    match prev with
    | none => (n.next, st)
    | some q => (head, setNext st q n.next)

/-- The list of cells with the payload at `p` changed. -/
def update (l : List (Nat × α)) (p : Nat) (f : α → α) : List (Nat × α) :=
  l.map fun c => if c.1 = p then (c.1, f c.2) else c

/-- The list of cells without the one at `p`. -/
def without (l : List (Nat × α)) (p : Nat) : List (Nat × α) := l.filter fun c => c.1 ≠ p

section Cells

variable {st : Store α} {a p q : Nat} {f : α → α} {nx : Option Nat}

private theorem cell_map {g : Nat → Node α → Node α} :
    Store.cell (st.map fun c => (c.1, g c.1 c.2)) a = (st.cell a).map (g a) := by
  induction st with
  | nil => rfl
  | cons c st ih =>
    obtain ⟨b, n⟩ := c
    rw [List.map_cons, cell_cons, cell_cons, ih]
    by_cases hab : a = b
    · subst hab; simp
    · simp [hab]

theorem cell_modify : Store.cell (modify st p f) a =
    (st.cell a).map fun n => if a = p then { n with val := f n.val } else n := by
  have hmap : modify st p f =
      st.map fun c => (c.1, if c.1 = p then { c.2 with val := f c.2.val } else c.2) := by
    apply List.map_congr_left
    intro c _
    split <;> rfl
  rw [hmap]
  exact cell_map (g := fun a n => if a = p then { n with val := f n.val } else n)

theorem cell_setNext : Store.cell (setNext st q nx) a =
    (st.cell a).map fun n => if a = q then { n with next := nx } else n := by
  have hmap : setNext st q nx =
      st.map fun c => (c.1, if c.1 = q then { c.2 with next := nx } else c.2) := by
    apply List.map_congr_left
    intro c _
    split <;> rfl
  rw [hmap]
  exact cell_map (g := fun a n => if a = q then { n with next := nx } else n)

end Cells

section Lists

variable {l : List (Nat × α)} {p : Nat} {f : α → α}

@[simp] theorem update_addresses : (update l p f).map Prod.fst = l.map Prod.fst := by
  rw [update, List.map_map]
  apply List.map_congr_left
  intro c _
  dsimp only [Function.comp]
  split <;> rfl

@[simp] theorem length_update : (update l p f).length = l.length := List.length_map _

theorem update_of_not_mem (h : p ∉ l.map Prod.fst) : update l p f = l := by
  conv_rhs => rw [← List.map_id l]
  apply List.map_congr_left
  intro c hc
  have hne : c.1 ≠ p := by
    rintro rfl
    exact h (List.mem_map_of_mem hc)
  simp [hne]

theorem mem_update {c : Nat × α} (h : c ∈ update l p f) :
    (c ∈ l ∧ c.1 ≠ p) ∨ ∃ v, (p, v) ∈ l ∧ c = (p, f v) := by
  obtain ⟨d, hd, rfl⟩ := List.mem_map.mp h
  by_cases hp : d.1 = p
  · right
    exact ⟨d.2, by rw [← hp]; exact hd, by simp [hp]⟩
  · left
    rw [if_neg hp]
    exact ⟨hd, hp⟩

theorem mem_without {c : Nat × α} : c ∈ without l p ↔ c ∈ l ∧ c.1 ≠ p := by
  simp [without]

theorem without_of_not_mem (h : p ∉ l.map Prod.fst) : without l p = l := by
  apply List.filter_eq_self.mpr
  intro c hc
  have hne : c.1 ≠ p := by
    rintro rfl
    exact h (List.mem_map_of_mem hc)
  simpa using hne

theorem without_split {x y : List (Nat × α)} {v : α}
    (h : ((x ++ (p, v) :: y).map Prod.fst).Nodup) : without (x ++ (p, v) :: y) p = x ++ y := by
  rw [List.map_append, List.map_cons, List.nodup_middle, List.nodup_cons, List.mem_append] at h
  obtain ⟨hp, _⟩ := h
  have hx : without x p = x := without_of_not_mem fun hmem => hp (Or.inl hmem)
  have hy : without y p = y := without_of_not_mem fun hmem => hp (Or.inr hmem)
  simp only [without, List.filter_append, List.filter_cons] at hx hy ⊢
  rw [hx, hy]
  simp

/-- Cells of a list without repeated addresses are given by their addresses. -/
theorem eq_of_addresses (h : (l.map Prod.fst).Nodup) {x y : List (Nat × α)} (hx : x ⊆ l)
    (hy : y ⊆ l) (heq : x.map Prod.fst = y.map Prod.fst) : x = y := by
  induction x generalizing y with
  | nil =>
    symm
    simpa using heq.symm
  | cons c x ih =>
    cases y with
    | nil => simp at heq
    | cons d y =>
      rw [List.map_cons, List.map_cons, List.cons.injEq] at heq
      rw [List.cons_subset] at hx hy
      rw [List.inj_on_of_nodup_map h hx.1 hy.1 heq.1, ih hx.2 hy.2 heq.2]

theorem nodup_without (h : (l.map Prod.fst).Nodup) : ((without l p).map Prod.fst).Nodup :=
  h.sublist (List.filter_sublist.map _)

end Lists

section Segments

variable {st : Store α} {head : Option Nat} {l : List (Nat × α)} {p q : Nat} {v : α} {f : α → α}

theorem seg_cell (h : st.Seg head l) (hmem : (p, v) ∈ l) : ∃ nx, st.cell p = some ⟨v, nx⟩ := by
  induction l generalizing head with
  | nil => cases hmem
  | cons c l ih =>
    obtain ⟨a, w⟩ := c
    obtain ⟨_, nx, hcell, hseg⟩ := h
    rcases List.mem_cons.mp hmem with heq | hmem
    · obtain ⟨rfl, rfl⟩ := Prod.mk.inj heq
      exact ⟨nx, hcell⟩
    · exact ih hseg hmem

/-- A fresh cell that is linked to the head goes in front. -/
theorem seg_pushFront (h : st.Seg head l) (fresh : st.cell p = none) :
    Store.Seg ((p, ⟨v, head⟩) :: st) (some p) ((p, v) :: l) := by
  refine ⟨rfl, head, by simp, ?_⟩
  apply Seg.congr h
  intro a ha
  have hap : a ≠ p := by
    rintro rfl
    exact fresh_not_mem h fresh ha
  simp [hap]

theorem seg_modify (h : st.Seg head l) : Store.Seg (modify st p f) head (update l p f) := by
  induction l generalizing head with
  | nil => exact h
  | cons c l ih =>
    obtain ⟨a, w⟩ := c
    obtain ⟨rfl, nx, hcell, hseg⟩ := h
    by_cases hap : a = p
    · subst hap
      simp only [update, List.map_cons, if_true]
      refine ⟨rfl, nx, ?_, ih hseg⟩
      simp [cell_modify, hcell]
    · simp only [update, List.map_cons, if_neg hap]
      refine ⟨rfl, nx, ?_, ih hseg⟩
      simp [cell_modify, hcell, hap]

theorem seg_free (h : st.Seg head l) (hp : p ∉ l.map Prod.fst) : (st.free p).Seg head l := by
  apply Seg.congr h
  intro a ha
  have hap : a ≠ p := by
    rintro rfl
    exact hp ha
  simp [cell_free, hap]

theorem before_of_not_mem {ps : List Nat} {prev : Option Nat} (h : p ∉ ps) :
    before p prev ps = none := by
  induction ps generalizing prev with
  | nil => rfl
  | cons a ps ih =>
    rw [List.mem_cons, not_or] at h
    rw [before, if_neg (Ne.symm h.1)]
    exact ih h.2

theorem before_split {x y : List Nat} {prev : Option Nat} (h : p ∉ x) :
    before p prev (x ++ p :: y) = some (x.getLast?.or prev) := by
  induction x generalizing prev with
  | nil => simp [before]
  | cons a x ih =>
    rw [List.mem_cons, not_or] at h
    rw [List.cons_append, before, if_neg (Ne.symm h.1), ih h.2]
    cases x with
    | nil => simp
    | cons b x =>
      rw [List.getLast?_cons_cons]
      cases hlast : (b :: x).getLast? with
      | none => simp at hlast
      | some c => rfl

/-- Redirecting the link before a cell to the one behind it leaves it out. -/
private theorem seg_skip {x y : List (Nat × α)} {nx : Option Nat}
    (h : st.Seg head (x ++ (p, v) :: y)) (hcell : st.cell p = some ⟨v, nx⟩)
    (hlast : (x.map Prod.fst).getLast? = some q) :
    Store.Seg (setNext st q nx) head (x ++ y) := by
  induction x generalizing head with
  | nil => simp at hlast
  | cons c x ih =>
    obtain ⟨a, w⟩ := c
    have hnodup := Seg.nodup h
    obtain ⟨rfl, nx', hcell', hseg⟩ := h
    rw [List.cons_append, List.map_cons, List.nodup_cons, List.map_append] at hnodup
    cases x with
    | nil =>
      obtain rfl : a = q := by simpa using hlast
      obtain ⟨rfl, nx'', hcell'', hrest⟩ := hseg
      obtain rfl : nx = nx'' := by
        rw [hcell] at hcell''
        simpa using hcell''
      refine ⟨rfl, nx, by simp [cell_setNext, hcell'], ?_⟩
      apply Seg.congr hrest
      intro b hb
      have hba : b ≠ a := by
        rintro rfl
        exact hnodup.1 (by simp [List.mem_map.mp hb])
      cases hcb : st.cell b <;> simp [cell_setNext, hcb, hba]
    | cons c' x =>
      have hlast' : ((c' :: x).map Prod.fst).getLast? = some q := by
        simpa [List.getLast?_cons_cons] using hlast
      have haq : a ≠ q := by
        rintro rfl
        exact hnodup.1 (List.mem_append_left _ (List.mem_of_getLast? hlast'))
      refine ⟨rfl, nx', by simp [cell_setNext, hcell', haq], ih hseg hlast'⟩

/-- Unlinking a listed cell and releasing it takes exactly this cell off the list. -/
theorem seg_unlink (h : st.Seg head l) (hp : p ∈ l.map Prod.fst) :
    ∃ head' st', unlink st head p = some (head', st') ∧
      (st'.free p).Seg head' (without l p) := by
  obtain ⟨⟨a, v⟩, hmem, rfl⟩ := List.mem_map.mp hp
  obtain ⟨x, y, rfl⟩ := List.append_of_mem hmem
  have hnodup := Seg.nodup h
  obtain ⟨nx, hcell⟩ := seg_cell h hmem
  have hsplit := without_split hnodup
  rw [List.map_append, List.map_cons, List.nodup_middle, List.nodup_cons, List.mem_append,
    not_or] at hnodup
  obtain ⟨⟨hx, hy⟩, _⟩ := hnodup
  have hbefore : before a none (((st.chain head).map Prod.fst)) =
      some ((x.map Prod.fst).getLast?) := by
    rw [Seg.chain_eq h, List.map_append, List.map_cons, before_split hx, Option.or_none]
  have hxy : a ∉ (x ++ y).map Prod.fst := by
    rw [List.map_append, List.mem_append, not_or]
    exact ⟨hx, hy⟩
  dsimp only
  rw [unlink, hbefore, Option.bind_some, hcell, Option.map_some, hsplit]
  cases hlast : (x.map Prod.fst).getLast? with
  | none =>
    obtain rfl : x = [] := by simpa using hlast
    obtain ⟨_, nx', hcell', hseg⟩ := h
    obtain rfl : nx = nx' := by
      rw [hcell] at hcell'
      simpa using hcell'
    exact ⟨nx, st, rfl, seg_free hseg hxy⟩
  | some q => exact ⟨head, setNext st q nx, rfl, seg_free (seg_skip h hcell hlast) hxy⟩

theorem unlink_of_not_mem (h : st.Seg head l) (hp : p ∉ l.map Prod.fst) :
    unlink st head p = none := by
  rw [unlink, Seg.chain_eq h, before_of_not_mem hp, Option.bind_none]

end Segments

end Cyctron.Machine.LinkedList
