/- Cyctron/Machine/History
   digest: The last event of a kind in a trace. -/

import Mathlib.Data.List.Basic

set_option autoImplicit false
set_option relaxedAutoImplicit false

namespace Cyctron.Machine.History

variable {ε : Type*} {kind : ε → Prop} {tr es xs ys : List ε} {e e' : ε}

/-- The event is of the kind, and no later one is. -/
structure Last (kind : ε → Prop) (tr : List ε) (e : ε) : Prop where
  holds : kind e
  split : ∃ xs ys, tr = xs ++ e :: ys ∧ ∀ d ∈ ys, ¬kind d

/-- Events of other kinds do not matter. -/
theorem Last.append (h : Last kind tr e) (other : ∀ d ∈ es, ¬kind d) : Last kind (tr ++ es) e := by
  obtain ⟨hkind, xs, ys, rfl, hys⟩ := h
  refine ⟨hkind, xs, ys ++ es, by simp, fun d hd => ?_⟩
  rcases List.mem_append.mp hd with hd | hd
  · exact hys d hd
  · exact other d hd

theorem Last.of_split (tr xs : List ε) (hkind : kind e) (other : ∀ d ∈ ys, ¬kind d) :
    Last kind (tr ++ (xs ++ e :: ys)) e :=
  ⟨hkind, tr ++ xs, ys, by simp, other⟩

theorem Last.unique (h : Last kind tr e) (h' : Last kind tr e') : e = e' := by
  obtain ⟨hkind, xs, ys, rfl, hys⟩ := h
  obtain ⟨hkind', xs', ys', heq, hys'⟩ := h'
  rcases List.append_eq_append_iff.mp heq with ⟨r, rfl, hr⟩ | ⟨r, rfl, hr⟩
  · cases r with
    | nil => exact (List.cons.inj hr).1
    | cons d r =>
      obtain ⟨rfl, rfl⟩ := List.cons.inj hr
      exact absurd hkind' (hys e' (List.mem_append_right r List.mem_cons_self))
  · cases r with
    | nil => exact (List.cons.inj hr).1.symm
    | cons d r =>
      obtain ⟨rfl, rfl⟩ := List.cons.inj hr
      exact absurd hkind (hys' e (List.mem_append_right r List.mem_cons_self))

end Cyctron.Machine.History
