/- Cyctron/Machine/Labelled
   digest: Labelled systems, their paths and runs, schedules, and the rules for invariants. -/

import Mathlib.Algebra.Group.Basic

set_option autoImplicit false
set_option relaxedAutoImplicit false

namespace Cyctron.Machine.Labelled

universe u v w

/-- A system whose label resolves every choice of the environment. A step that is
enabled gives the next state and the events it reports. -/
structure System (σ : Type u) (α : Type v) (ε : Type w) where
  initial : σ
  step : σ → α → Option (σ × List ε)

variable {σ : Type u} {α : Type v} {ε : Type w}

/-- The steps allowed by `ok` lead from `s` to the last index and report the trace. -/
inductive Path (M : System σ α ε) (ok : σ → α → Prop) (s : σ) : List ε → σ → Prop
  | refl : Path M ok s [] s
  | snoc {tr es : List ε} {t t' : σ} {a : α} : Path M ok s tr t → ok t a →
      M.step t a = some (t', es) → Path M ok s (tr ++ es) t'

/-- A run is a path from the initial state. -/
abbrev Run (M : System σ α ε) (ok : σ → α → Prop) : List ε → σ → Prop :=
  Path M ok M.initial

/-- The condition that allows every step. -/
def anyStep : σ → α → Prop := fun _ _ => True

instance (s : σ) (a : α) : Decidable (anyStep s a) := inferInstanceAs (Decidable True)

/-- A label is enabled when it has a successor. -/
def System.Enabled (M : System σ α ε) (s : σ) (a : α) : Prop := (M.step s a).isSome = true

/-- The state and the events after a schedule, when each of its labels is enabled in turn. -/
def System.exec (M : System σ α ε) : σ → List α → Option (σ × List ε)
  | s, [] => some (s, [])
  | s, a :: as => (M.step s a).bind fun r => (M.exec r.1 as).map fun q => (q.1, r.2 ++ q.2)

variable {M : System σ α ε} {ok ok' : σ → α → Prop} {s t u : σ} {tr tr' es : List ε} {a : α}

theorem Path.single (hok : ok s a) (h : M.step s a = some (t, es)) : Path M ok s es t := by
  have := Path.snoc (Path.refl (M := M) (s := s)) hok h
  simpa using this

theorem Path.trans (h : Path M ok s tr t) (h' : Path M ok t tr' u) :
    Path M ok s (tr ++ tr') u := by
  induction h' with
  | refl => simpa using h
  | snoc _ hok hstep ih =>
    rw [← List.append_assoc]
    exact ih.snoc hok hstep

theorem Path.mono (hle : ∀ s a, ok s a → ok' s a) (h : Path M ok s tr t) :
    Path M ok' s tr t := by
  induction h with
  | refl => exact .refl
  | snoc _ hok hstep ih => exact ih.snoc (hle _ _ hok) hstep

/-- What holds at the start and is kept by each allowed step holds along the path. -/
theorem Path.invariant (P : List ε → σ → Prop) (h : Path M ok s tr t) (start : P [] s)
    (keep : ∀ tr t a t' es, P tr t → ok t a → M.step t a = some (t', es) → P (tr ++ es) t') :
    P tr t := by
  induction h with
  | refl => exact start
  | snoc _ hok hstep ih => exact keep _ _ _ _ _ ih hok hstep

/-- The invariant rule for predicates of the state alone. -/
theorem Path.state_invariant (P : σ → Prop) (h : Path M ok s tr t) (start : P s)
    (keep : ∀ t a t' es, P t → ok t a → M.step t a = some (t', es) → P t') : P t :=
  h.invariant (fun _ t => P t) start fun _ t a t' es => keep t a t' es

/-- An invariant may be proved with the help of one that is already known. -/
theorem Path.invariant_of (Q : List ε → σ → Prop) (P : List ε → σ → Prop)
    (known : ∀ tr t, Path M ok s tr t → Q tr t) (h : Path M ok s tr t) (start : P [] s)
    (keep : ∀ tr t a t' es, Q tr t → P tr t → ok t a → M.step t a = some (t', es) →
      P (tr ++ es) t') : P tr t := by
  induction h with
  | refl => exact start
  | snoc hp hok hstep ih => exact keep _ _ _ _ _ (known _ _ hp) ih hok hstep

/-- An additive account that each step keeps is kept by a whole path. -/
theorem Path.conserved {β : Type*} [AddCommMonoid β] (stock : σ → β) (inflow outflow : List ε → β)
    (inflow_nil : inflow [] = 0) (outflow_nil : outflow [] = 0)
    (inflow_append : ∀ x y, inflow (x ++ y) = inflow x + inflow y)
    (outflow_append : ∀ x y, outflow (x ++ y) = outflow x + outflow y)
    (keep : ∀ tr t a t' es, Path M ok s tr t → ok t a → M.step t a = some (t', es) →
      stock t + inflow es = stock t' + outflow es)
    (h : Path M ok s tr t) : stock s + inflow tr = stock t + outflow tr := by
  induction h with
  | refl => simp [inflow_nil, outflow_nil]
  | @snoc tr es t t' a hp hok hstep ih =>
    have h' := keep _ _ _ _ _ hp hok hstep
    calc stock s + inflow (tr ++ es)
        = stock s + inflow tr + inflow es := by rw [inflow_append, add_assoc]
      _ = stock t + outflow tr + inflow es := by rw [ih]
      _ = stock t + inflow es + outflow tr := by rw [add_right_comm]
      _ = stock t' + outflow es + outflow tr := by rw [h']
      _ = stock t' + outflow (tr ++ es) := by
        rw [outflow_append, add_assoc, add_comm (outflow es)]

/-- A system whose steps map to paths of another one has its runs mapped as well. -/
theorem Path.project {σ' : Type*} {α' : Type*} {ε' : Type*} {N : System σ' α' ε'}
    {okN : σ' → α' → Prop} (f : σ → σ') (g : List ε → List ε') (g_nil : g [] = [])
    (g_append : ∀ x y, g (x ++ y) = g x ++ g y)
    (sim : ∀ t a t' es, ok t a → M.step t a = some (t', es) → Path N okN (f t) (g es) (f t'))
    (h : Path M ok s tr t) : Path N okN (f s) (g tr) (f t) := by
  induction h with
  | refl => rw [g_nil]; exact .refl
  | snoc _ hok hstep ih =>
    rw [g_append]
    exact ih.trans (sim _ _ _ _ hok hstep)

@[simp] theorem System.exec_nil (M : System σ α ε) (s : σ) : M.exec s [] = some (s, []) := rfl

theorem System.exec_cons (M : System σ α ε) (s : σ) (a : α) (as : List α) :
    M.exec s (a :: as) =
      (M.step s a).bind fun r => (M.exec r.1 as).map fun q => (q.1, r.2 ++ q.2) := rfl

theorem System.exec_cons_some {as : List α} (h : M.exec s (a :: as) = some (u, tr)) :
    ∃ t es tr', M.step s a = some (t, es) ∧ M.exec t as = some (u, tr') ∧ tr = es ++ tr' := by
  rw [System.exec_cons] at h
  obtain ⟨⟨t, es⟩, hstep, h⟩ := Option.bind_eq_some_iff.mp h
  obtain ⟨⟨v, tr'⟩, hexec, heq⟩ := Option.map_eq_some_iff.mp h
  obtain ⟨rfl, rfl⟩ := Prod.mk.inj heq
  exact ⟨t, es, tr', hstep, hexec, rfl⟩

/-- The system whose other steps are disabled. -/
def System.guard (M : System σ α ε) (ok : σ → α → Prop) [∀ s a, Decidable (ok s a)] :
    System σ α ε :=
  ⟨M.initial, fun s a => if ok s a then M.step s a else none⟩

theorem System.exec_path [∀ s a, Decidable (ok s a)] {as : List α}
    (h : (M.guard ok).exec s as = some (t, tr)) : Path M ok s tr t := by
  induction as generalizing s tr with
  | nil =>
    obtain ⟨rfl, rfl⟩ := Prod.mk.inj (Option.some.inj h)
    exact .refl
  | cons a as ih =>
    obtain ⟨v, es, tr', hstep, hexec, rfl⟩ := System.exec_cons_some h
    simp only [System.guard, Option.ite_none_right_eq_some] at hstep
    exact (Path.single hstep.1 hstep.2).trans (ih hexec)

/-- What a computation shows of a schedule's end holds at the end of some run. -/
theorem System.exec_reaches (M : System σ α ε) (ok : σ → α → Prop) [∀ s a, Decidable (ok s a)]
    (as : List α) (P : List ε → σ → Prop) [∀ tr t, Decidable (P tr t)]
    (h : ((M.guard ok).exec M.initial as).any (fun q => P q.2 q.1) = true) :
    ∃ tr t, Run M ok tr t ∧ P tr t := by
  cases hq : (M.guard ok).exec M.initial as with
  | none => simp [hq] at h
  | some q =>
    rw [hq, Option.any_some] at h
    exact ⟨q.2, q.1, System.exec_path hq, of_decide_eq_true h⟩

/-- A schedule whose labels each lower a measure is no longer than the measure at its start. -/
theorem System.exec_length_le (μ : σ → Nat) (P : σ → Prop) (good : α → Prop)
    (keep : ∀ s a t es, P s → good a → M.step s a = some (t, es) → P t)
    (lower : ∀ s a t es, P s → good a → M.step s a = some (t, es) → μ t < μ s)
    {as : List α} (hP : P s) (hgood : ∀ a ∈ as, good a) (h : M.exec s as = some (t, tr)) :
    as.length + μ t ≤ μ s := by
  induction as generalizing s tr with
  | nil =>
    obtain ⟨rfl, rfl⟩ := Prod.mk.inj (Option.some.inj h)
    simp
  | cons a as ih =>
    obtain ⟨v, es, tr', hstep, hexec, rfl⟩ := System.exec_cons_some h
    have ha := hgood a List.mem_cons_self
    have hle := ih (keep _ _ _ _ hP ha hstep) (fun b hb => hgood b (List.mem_cons_of_mem a hb)) hexec
    have hlt := lower _ _ _ _ hP ha hstep
    simp only [List.length_cons]
    omega

end Cyctron.Machine.Labelled
