/- Cyctron/Base/Path
   digest: Segments of paths: what stands between two separators or at an end. -/

import Mathlib.Data.List.Infix

set_option autoImplicit false
set_option relaxedAutoImplicit false

namespace Cyctron.Base.Path

variable {α : Type*} {sep : α} {seg a b l : List α}

/-- The path `l` has the segment `seg`. -/
def HasSegment (sep : α) (seg l : List α) : Prop := sep :: seg ++ [sep] <:+: sep :: l ++ [sep]

instance [DecidableEq α] (sep : α) (seg l : List α) : Decidable (HasSegment sep seg l) :=
  inferInstanceAs (Decidable (_ <:+: _))

/-- An occurrence does not begin with another symbol than the pattern's first. -/
theorem infix_cons_of_ne {c : α} (h : c ≠ sep) : sep :: seg <:+: c :: l ↔ sep :: seg <:+: l := by
  rw [List.infix_cons_iff]
  exact or_iff_right fun hp => h (List.cons_prefix_cons.mp hp).1.symm

/-- An occurrence does not end with another symbol than the pattern's last. -/
theorem infix_concat_of_ne {c : α} (h : c ≠ sep) :
    seg ++ [sep] <:+: l ++ [c] ↔ seg ++ [sep] <:+: l := by
  rw [List.infix_concat_iff]
  refine or_iff_right fun hs => h ?_
  rw [← List.reverse_prefix, List.reverse_append, List.reverse_append] at hs
  exact (List.cons_prefix_cons.mp hs).1.symm

private theorem prefix_up_to (h : sep ∉ seg) (hp : seg ++ [sep] <+: a ++ sep :: b) :
    seg ++ [sep] <+: a ++ [sep] := by
  have hcut : a ++ [sep] <+: a ++ sep :: b := ⟨b, by simp⟩
  rcases List.prefix_or_prefix_of_prefix hp hcut with hle | hle
  · exact hle
  · rcases List.prefix_concat_iff.mp hle with heq | hin
    · rw [heq]
    · exact absurd (hin.subset (List.mem_append_right a List.mem_cons_self)) h

/-- A segment with the separators around it does not reach over a separator. -/
theorem infix_split (h : sep ∉ seg) : sep :: seg ++ [sep] <:+: a ++ sep :: b ↔
    sep :: seg ++ [sep] <:+: a ++ [sep] ∨ sep :: seg ++ [sep] <:+: sep :: b := by
  constructor
  · induction a with
    | nil => exact Or.inr
    | cons c a ih =>
      intro hin
      rcases List.infix_cons_iff.mp hin with hp | hin
      · rw [List.cons_append, List.cons_prefix_cons] at hp
        refine Or.inl (List.IsPrefix.isInfix ?_)
        rw [List.cons_append, List.cons_append, List.cons_prefix_cons]
        exact ⟨hp.1, prefix_up_to h hp.2⟩
      · rcases ih hin with hin | hin
        · exact Or.inl (List.infix_cons hin)
        · exact Or.inr hin
  · rintro (hin | hin)
    · exact hin.trans ⟨[], b, by simp⟩
    · exact hin.trans (List.suffix_append a (sep :: b)).isInfix

/-- The segments of two paths joined by a separator are those of the two paths. -/
theorem hasSegment_append (h : sep ∉ seg) :
    HasSegment sep seg (a ++ sep :: b) ↔ HasSegment sep seg a ∨ HasSegment sep seg b := by
  have hsplit := infix_split (a := sep :: a) (b := b ++ [sep]) h
  unfold HasSegment
  simpa only [List.cons_append, List.append_assoc] using hsplit

/-- A path without separators is its only segment. -/
theorem hasSegment_single (hl : sep ∉ l) : HasSegment sep seg l ↔ seg = l := by
  unfold HasSegment
  constructor
  · intro h
    change sep :: (seg ++ [sep]) <:+: sep :: (l ++ [sep]) at h
    rcases List.infix_cons_iff.mp h with hp | hin
    · rcases List.prefix_concat_iff.mp (List.cons_prefix_cons.mp hp).2 with heq | hin
      · exact List.append_cancel_right heq
      · exact absurd (hin.subset (List.mem_append_right seg List.mem_cons_self)) hl
    · rcases List.infix_concat_iff.mp hin with hs | hin
      · have hs' : sep :: seg <:+ l := List.suffix_append_self_iff.mp hs
        exact absurd (hs'.subset List.mem_cons_self) hl
      · exact absurd (hin.subset List.mem_cons_self) hl
  · rintro rfl
    exact List.infix_rfl

end Cyctron.Base.Path
