/- Cyctron/Base/FileTree
   digest: Trees of directories and files without links, and the places that paths denote in them. -/

import Mathlib.Data.List.Infix

set_option autoImplicit false
set_option relaxedAutoImplicit false

namespace Cyctron.Base.FileTree

inductive Kind
  | directory
  | file
  deriving DecidableEq

/-- What stands at each place; a place is the names on the way down from the root. -/
structure Tree (α : Type*) where
  kind : List (List α) → Option Kind

variable {α : Type*} [DecidableEq α]

/-- A component that goes down. -/
def isName (dot : α) (c : List α) : Bool := decide (c ≠ []) && decide (c ≠ [dot])

/-- Where components lead from a place: empty ones and dots stay, two dots go up, and each of them
asks for a directory. -/
def Tree.walk (t : Tree α) (dot : α) :
    List (List α) → List (List α) → Option (List (List α))
  | p, [] => some p
  | p, c :: cs =>
    if t.kind p ≠ some .directory then none
    else if isName dot c = false then t.walk dot p cs
    else if c = [dot, dot] then t.walk dot p.dropLast cs
    else t.walk dot (p ++ [c]) cs

/-- The relative path leads from a place to a file. -/
def Tree.Opens (t : Tree α) (dot sep : α) (p : List (List α)) (path : List α)
    (q : List (List α)) : Prop :=
  t.walk dot p (path.splitOn sep) = some q ∧ t.kind q = some .file

/-- The place is one inside a directory. -/
def Inside (dir q : List (List α)) : Prop := dir <+: q ∧ q ≠ dir

section Walks

variable {t : Tree α} {dot : α} {p q c : List (List α)} {cs ds : List (List α)} {n : List α}

/-- Without two dots, a walk only goes down. -/
theorem walk_level (level : [dot, dot] ∉ cs) (h : t.walk dot p cs = some q) :
    q = p ++ cs.filter (isName dot) := by
  induction cs generalizing p with
  | nil =>
    rw [List.filter_nil, List.append_nil]
    exact (Option.some.inj h).symm
  | cons c cs ih =>
    have hrest : [dot, dot] ∉ cs := fun hmem => level (List.mem_cons_of_mem c hmem)
    have hc : ¬c = [dot, dot] := fun heq => level (heq ▸ List.mem_cons_self)
    have hdir : ¬t.kind p ≠ some .directory := fun hno => by
      rw [Tree.walk, if_pos hno] at h
      cases h
    rw [Tree.walk, if_neg hdir] at h
    by_cases hname : isName dot c = false
    · rw [if_pos hname] at h
      rw [List.filter_cons_of_neg (by rw [hname]; exact Bool.false_ne_true)]
      exact ih hrest h
    · rw [if_neg hname, if_neg hc] at h
      rw [List.filter_cons_of_pos (eq_true_of_ne_false hname), ih hrest h, List.append_assoc]
      rfl

theorem walk_append : t.walk dot p (cs ++ ds) = (t.walk dot p cs).bind fun q => t.walk dot q ds := by
  induction cs generalizing p with
  | nil => rfl
  | cons c cs ih =>
    rw [List.cons_append, Tree.walk, Tree.walk]
    split
    · rfl
    · split
      · exact ih
      · split
        · exact ih
        · exact ih

/-- A walk that goes on starts in a directory. -/
theorem walk_directory (hne : cs ≠ []) (h : t.walk dot p cs = some q) :
    t.kind p = some .directory := by
  cases cs with
  | nil => exact absurd rfl hne
  | cons c cs =>
    rw [Tree.walk] at h
    split at h
    · cases h
    · rename_i hdir
      exact not_not.mp hdir

/-- What is opened below a directory lies inside it. -/
theorem opened_inside (level : [dot, dot] ∉ cs ++ ds) (hne : ds ≠ [])
    (h : t.walk dot p (cs ++ ds) = some q) (hfile : t.kind q = some .file) :
    Inside (p ++ cs.filter (isName dot)) q := by
  have hq := walk_level level h
  rw [List.filter_append, ← List.append_assoc] at hq
  refine ⟨⟨_, hq.symm⟩, ?_⟩
  rintro rfl
  rw [walk_append] at h
  obtain ⟨r, hr, hd⟩ := Option.bind_eq_some_iff.mp h
  have hplace := walk_level (fun hmem => level (List.mem_append_left ds hmem)) hr
  have hdir := walk_directory hne hd
  rw [hplace, hfile] at hdir
  cases hdir

/-- The tree that holds one file. -/
def single (q : List (List α)) : Tree α :=
  ⟨fun p => if p = q then some .file else if p <+: q then some .directory else none⟩

theorem single_directory (h : p <+: q) (hne : p ≠ q) :
    (single q).kind p = some .directory := by
  change (if p = q then some Kind.file else if p <+: q then some Kind.directory else none) = _
  rw [if_neg hne, if_pos h]

/-- Without two dots, a path to a name opens the one file that stands there. -/
theorem single_walk (level : [dot, dot] ∉ cs ++ [n]) (hn : isName dot n = true)
    (hq : q = p ++ (cs ++ [n]).filter (isName dot)) : (single q).walk dot p (cs ++ [n]) = some q := by
  have htail : [n].filter (isName dot) = [n] := List.filter_cons_of_pos hn
  have hbelow : (single q).kind p = some .directory := by
    refine single_directory ⟨_, hq.symm⟩ fun heq => ?_
    rw [heq, List.filter_append, htail, ← List.append_assoc] at hq
    have hlength := congrArg List.length hq
    simp only [List.length_append, List.length_singleton] at hlength
    omega
  induction cs generalizing p with
  | nil =>
    have hdots : ¬n = [dot, dot] := fun heq => level (heq ▸ List.mem_cons_self)
    rw [List.nil_append, htail] at hq
    rw [List.nil_append, Tree.walk, if_neg (not_not.mpr hbelow),
      if_neg (by rw [hn]; exact Bool.true_eq_false.mp), if_neg hdots, Tree.walk, hq]
  | cons c cs ih =>
    have hrest : [dot, dot] ∉ cs ++ [n] := fun hmem => level (List.mem_cons_of_mem c hmem)
    have hdots : ¬c = [dot, dot] := fun heq => level (heq ▸ List.mem_cons_self)
    rw [List.cons_append, Tree.walk, if_neg (not_not.mpr hbelow)]
    rw [List.cons_append] at hq
    by_cases hc : isName dot c = false
    · rw [if_pos hc]
      rw [List.filter_cons_of_neg (by rw [hc]; exact Bool.false_ne_true)] at hq
      exact ih hrest hq hbelow
    · rw [List.filter_cons_of_pos (eq_true_of_ne_false hc)] at hq
      have hq' : q = (p ++ [c]) ++ (cs ++ [n]).filter (isName dot) := by
        rw [hq, List.append_assoc]
        rfl
      rw [if_neg hc, if_neg hdots]
      refine ih hrest hq' (single_directory ⟨_, hq'.symm⟩ fun heq => ?_)
      rw [heq, List.filter_append, htail, ← List.append_assoc] at hq'
      have hlength := congrArg List.length hq'
      simp only [List.length_append, List.length_singleton] at hlength
      omega

end Walks

section Components

variable {sep : α} {l a b c : List α}

omit [DecidableEq α] in
theorem infix_intercalate {cs : List (List α)} (h : c ∈ cs) : c <:+: [sep].intercalate cs := by
  induction cs with
  | nil => exact absurd h List.not_mem_nil
  | cons d cs ih =>
    cases cs with
    | nil =>
      rw [List.mem_singleton.mp h, List.intercalate_singleton]
    | cons e cs =>
      rw [List.intercalate_cons_cons, List.append_assoc]
      rcases List.mem_cons.mp h with rfl | h
      · exact (List.prefix_append c _).isInfix
      · have hrest : c <:+: [sep] ++ [sep].intercalate (e :: cs) :=
          (ih h).trans (List.suffix_append [sep] _).isInfix
        exact hrest.trans (List.suffix_append d _).isInfix

/-- A component is part of its path. -/
theorem component_within (h : c ∈ l.splitOn sep) : c <:+: l := by
  have hin : c <:+: [sep].intercalate (l.splitOn sep) := infix_intercalate h
  rwa [List.intercalate_splitOn] at hin

/-- The last component stands behind the last separator. -/
theorem splitOn_last (h : sep ∉ b) : (a ++ sep :: b).splitOn sep = a.splitOn sep ++ [b] := by
  rw [List.splitOn_append_cons_self, List.splitOn_eq_singleton h]

omit [DecidableEq α] in
theorem exists_last (h : sep ∈ l) : ∃ a b, l = a ++ sep :: b ∧ sep ∉ b := by
  induction l with
  | nil => exact absurd h List.not_mem_nil
  | cons x l ih =>
    by_cases hl : sep ∈ l
    · obtain ⟨a, b, rfl, hb⟩ := ih hl
      exact ⟨x :: a, b, rfl, hb⟩
    · rcases List.mem_cons.mp h with rfl | h
      · exact ⟨[], l, rfl, hl⟩
      · exact absurd h hl

/-- Behind the last separator, a longer path only changes the last component. -/
theorem component_append (hb : sep ∉ b) (h : c ∈ (a ++ b).splitOn sep) :
    c ∈ a.splitOn sep ∨ b <:+ c := by
  by_cases ha : sep ∈ a
  · obtain ⟨a, d, rfl, hd⟩ := exists_last ha
    have hend : sep ∉ d ++ b := by
      rw [List.mem_append]
      exact not_or.mpr ⟨hd, hb⟩
    rw [List.append_assoc, List.cons_append, splitOn_last hend] at h
    rw [splitOn_last hd]
    rcases List.mem_append.mp h with h | h
    · exact Or.inl (List.mem_append_left _ h)
    · rw [List.mem_singleton.mp h]
      exact Or.inr (List.suffix_append d b)
  · have hall : sep ∉ a ++ b := by
      rw [List.mem_append]
      exact not_or.mpr ⟨ha, hb⟩
    rw [List.splitOn_eq_singleton hall, List.mem_singleton] at h
    rw [h]
    exact Or.inr (List.suffix_append a b)

/-- What stands before the first separator of a text is its first component. -/
theorem splitOn_first (ha : sep ∉ a) : ∃ y rest, (a ++ l).splitOn sep = y :: rest ∧ a <+: y := by
  cases hl : l.splitOn sep with
  | nil => exact absurd hl (List.splitOn_ne_nil sep l)
  | cons x rest =>
    refine ⟨a ++ x, rest, ?_, List.prefix_append a x⟩
    induction a with
    | nil => rw [List.nil_append, List.nil_append, hl]
    | cons c a ih =>
      have hc : c ≠ sep := by
        rintro rfl
        exact ha List.mem_cons_self
      rw [List.cons_append, List.splitOn_cons_eq_if_modifyHead,
        if_neg (fun heq => hc (eq_of_beq heq)), ih fun hmem => ha (List.mem_cons_of_mem c hmem),
        List.modifyHead_cons, List.cons_append]

/-- The front of a text has the components of the text up to one that is cut. -/
theorem splitOn_front (h : a <+: l) : ∃ front x y rest, a.splitOn sep = front ++ [x] ∧
    l.splitOn sep = front ++ y :: rest ∧ x <+: y := by
  obtain ⟨r, rfl⟩ := h
  by_cases ha : sep ∈ a
  · obtain ⟨b, x, rfl, hx⟩ := exists_last ha
    obtain ⟨y, rest, hy, hprefix⟩ := splitOn_first (l := r) hx
    refine ⟨b.splitOn sep, x, y, rest, splitOn_last hx, ?_, hprefix⟩
    rw [List.append_assoc, List.cons_append, List.splitOn_append_cons_self, hy]
  · obtain ⟨y, rest, hy, hprefix⟩ := splitOn_first (l := r) ha
    exact ⟨[], a, y, rest, List.splitOn_eq_singleton ha, hy, hprefix⟩

end Components

end Cyctron.Base.FileTree
