/- Cyctron/Json/Seams
   digest: In which states of the acceptor a member, or the end of an object, can follow. -/

import Cyctron.Json.Acceptor

set_option autoImplicit false
set_option relaxedAutoImplicit false

namespace Cyctron.Json.Seams

open Cyctron.Base.CString Cyctron.Json.Text Cyctron.Json.Build Cyctron.Json.Acceptor

/-- A word lacks letters only. -/
def Lettered (s : State) : Prop := ∀ rest, s.mode = .word rest → ∀ c ∈ rest, 97 ≤ c

variable {s s' : State} {σ : List Bool} {m : Mode} {t u k : Bytes} {c : UInt8} {key : Bool}

section Words

private theorem lettered_of (h : ∀ rest, m ≠ .word rest) : Lettered ⟨m, σ⟩ :=
  fun rest hm => absurd hm (h rest)

private theorem lettered_after (σ : List Bool) : Lettered ⟨.after, σ⟩ :=
  lettered_of (by intro r hr; cases hr)

theorem lettered_value (σ : List Bool) : Lettered ⟨.value, σ⟩ :=
  lettered_of (by intro r hr; cases hr)

theorem lettered_string (key : Bool) (σ : List Bool) : Lettered ⟨.string key, σ⟩ :=
  lettered_of (by intro r hr; cases hr)

private theorem next_lettered (h : next σ c = some s') : Lettered s' := by
  intro rest hm
  unfold next at h
  repeat' split at h
  all_goals cases h
  all_goals cases hm

private theorem letters_of {w : String} (h : (ascii w).all (fun c => decide (97 ≤ c)) = true) :
    ∀ c ∈ ascii w, 97 ≤ c := fun c hc => of_decide_eq_true (List.all_eq_true.mp h c hc)

private theorem first_lettered (h : first σ c = some s') : Lettered s' := by
  unfold first at h
  split_ifs at h
  all_goals
    obtain rfl := Option.some.inj h
    intro rest hm
    cases hm
  all_goals exact letters_of (by decide)

private theorem scaled_lettered (h : scaled σ c = some s') : Lettered s' := by
  unfold scaled at h
  split at h
  · obtain rfl := Option.some.inj h
    intro rest hm
    cases hm
  · exact next_lettered h

private theorem pointed_lettered (h : pointed σ c = some s') : Lettered s' := by
  unfold pointed at h
  split at h
  · obtain rfl := Option.some.inj h
    intro rest hm
    cases hm
  · exact scaled_lettered h

private theorem step_lettered (h : step s c = some s') (hs : Lettered s) : Lettered s' := by
  obtain ⟨m, σ⟩ := s
  have hplain : ∀ {m' : Mode} {σ' : List Bool}, (∀ rest, m' ≠ .word rest) →
      some (⟨m', σ'⟩ : State) = some s' → Lettered s' := by
    intro m' σ' hm' heq
    obtain rfl := Option.some.inj heq
    exact lettered_of hm'
  cases m with
  | word rest =>
    change (if _ then some (State.mk (if _ then _ else _) σ) else none) = _ at h
    split_ifs at h
    · exact hplain (by intro rest' hr; cases hr) h
    · obtain rfl := Option.some.inj h
      intro rest' hr x hx
      cases hr
      exact hs rest rfl x (List.mem_of_mem_tail hx)
  | hex key left =>
    cases left with
    | zero =>
      change (if _ then some _ else none) = _ at h
      split_ifs at h
      exact hplain (by intro rest hr; cases hr) h
    | succ left =>
      change (if _ then some _ else none) = _ at h
      split_ifs at h
      exact hplain (by intro rest hr; cases hr) h
  | string key =>
    cases key <;> dsimp only [step] at h <;> split_ifs at h <;>
      exact hplain (by intro rest hr; cases hr) h
  | _ =>
    dsimp only [step] at h
    try split_ifs at h
    all_goals first
      | exact next_lettered h
      | exact first_lettered h
      | exact scaled_lettered h
      | exact pointed_lettered h
      | exact hplain (by intro rest hr; cases hr) h

theorem run_lettered (h : run s t = some s') (hs : Lettered s) : Lettered s' := by
  induction t generalizing s with
  | nil =>
    obtain rfl := Option.some.inj h
    exact hs
  | cons c t ih =>
    obtain ⟨s₁, hstep, hrun⟩ := Option.bind_eq_some_iff.mp h
    exact ih hrun (step_lettered hstep hs)

/-- No word goes on with a byte before the letters. -/
private theorem step_word {rest : Bytes} (hs : Lettered ⟨.word rest, σ⟩) (hc : c < 97) :
    step ⟨.word rest, σ⟩ c = none := by
  refine if_neg fun h => ?_
  exact absurd (hs rest rfl c (List.mem_of_mem_head? h)) (UInt8.not_le.mpr hc)

end Words

section Punctuation

private theorem next_comma (h : next σ 44 = some s') :
    ∃ b σ', σ = b :: σ' ∧ s' = ⟨if b then .name else .value, σ⟩ := by
  cases σ with
  | nil => cases h
  | cons b σ' =>
    cases b with
    | true => exact ⟨true, σ', rfl, (Option.some.inj h).symm⟩
    | false => exact ⟨false, σ', rfl, (Option.some.inj h).symm⟩

private theorem next_brace (h : next σ 125 = some s') : ∃ σ', σ = true :: σ' ∧ s' = ⟨.after, σ'⟩ := by
  cases σ with
  | nil => cases h
  | cons b σ' =>
    cases b with
    | true => exact ⟨σ', rfl, (Option.some.inj h).symm⟩
    | false => cases h

/-- No other byte follows a value. -/
private theorem next_other (hws : isWs c = false) (hcomma : c ≠ 44) (hbrace : c ≠ 125)
    (hbracket : c ≠ 93) :
    next σ c = none := by
  unfold next
  rw [hws, if_neg Bool.false_ne_true]
  cases σ with
  | nil => rfl
  | cons b σ' =>
    cases b with
    | true =>
      dsimp only
      rw [if_neg hcomma, if_neg hbrace]
    | false =>
      dsimp only
      rw [if_neg hcomma, if_neg hbracket]

/-- A comma goes on with a string, or ends a value. -/
private theorem step_comma (hs : Lettered ⟨m, σ⟩) (h : step ⟨m, σ⟩ 44 = some s') :
    (∃ key, m = .string key ∧ s' = ⟨m, σ⟩) ∨ (ended m = true ∧ next σ 44 = some s') := by
  cases m with
  | string key =>
    obtain rfl := Option.some.inj h
    exact Or.inl ⟨key, rfl, rfl⟩
  | word rest =>
    rw [step_word hs (by decide)] at h
    cases h
  | after => exact Or.inr ⟨rfl, h⟩
  | zero => exact Or.inr ⟨rfl, h⟩
  | int => exact Or.inr ⟨rfl, h⟩
  | frac => exact Or.inr ⟨rfl, h⟩
  | exp => exact Or.inr ⟨rfl, h⟩
  | _ => cases h

/-- A quote ends a string, begins one, or stands escaped in one. -/
private theorem step_quote (hs : Lettered ⟨m, σ⟩) (h : step ⟨m, σ⟩ 34 = some s') :
    (m = .string false ∧ s' = ⟨.after, σ⟩) ∨ (m = .string true ∧ s' = ⟨.colon, σ⟩) ∨
      ∃ key, s' = ⟨.string key, σ⟩ := by
  by_cases hm : ended m = true
  · rw [step_ended hm (by decide), next_other (by decide) (by decide) (by decide) (by decide)] at h
    cases h
  cases m with
  | string key =>
    obtain rfl := Option.some.inj h
    cases key with
    | true => exact Or.inr (Or.inl ⟨rfl, rfl⟩)
    | false => exact Or.inl ⟨rfl, rfl⟩
  | word rest =>
    rw [step_word hs (by decide)] at h
    cases h
  | value => exact Or.inr (Or.inr ⟨false, (Option.some.inj h).symm⟩)
  | «open» => exact Or.inr (Or.inr ⟨false, (Option.some.inj h).symm⟩)
  | brace => exact Or.inr (Or.inr ⟨true, (Option.some.inj h).symm⟩)
  | name => exact Or.inr (Or.inr ⟨true, (Option.some.inj h).symm⟩)
  | escape key => exact Or.inr (Or.inr ⟨key, (Option.some.inj h).symm⟩)
  | _ => first
    | cases h
    | exact absurd rfl hm

end Punctuation

section Members

private theorem run_step (h : run s (c :: t) = some s') : ∃ u, step s c = some u ∧ run u t = some s' :=
  Option.bind_eq_some_iff.mp h

/-- After a string nothing but punctuation can stand. -/
private theorem string_letter (hc : 97 ≤ c ∧ c ≤ 122) :
    run ⟨.string key, σ⟩ (34 :: c :: t) = none := by
  have hother : ∀ d : UInt8, d < 97 ∨ 122 < d → c ≠ d := by
    rintro d hd rfl
    rcases hd with hd | hd
    · exact absurd hc.1 (UInt8.not_le.mpr hd)
    · exact absurd hc.2 (UInt8.not_le.mpr hd)
  have hws : isWs c = false := by
    simp [isWs, hother 32 (by decide), hother 9 (by decide), hother 10 (by decide),
      hother 13 (by decide)]
  cases key with
  | true =>
    have hcolon : step ⟨.colon, σ⟩ c = none := by
      change (if _ then _ else if _ then _ else _) = _
      rw [hws, if_neg Bool.false_ne_true, if_neg fun h => hother 58 (by decide) h.1]
    rw [run_cons ⟨.colon, σ⟩ rfl, run, hcolon]
    rfl
  | false =>
    have hafter : step ⟨.after, σ⟩ c = none :=
      next_other hws (hother 44 (by decide)) (hother 125 (by decide)) (hother 93 (by decide))
    rw [run_cons ⟨.after, σ⟩ rfl, run, hafter]
    rfl

/-- The text before the value of a further member can stand after a value in an object only. -/
private theorem further_member (s' : State) (hs : Lettered s) (hk : Body (c :: k))
    (hc : 97 ≤ c ∧ c ≤ 122) :
    run s (44 :: 34 :: (c :: k ++ 34 :: [58])) = some s' ↔
      ended s.mode = true ∧ ∃ σ, s.stack = true :: σ ∧ s' = ⟨.value, s.stack⟩ := by
  obtain ⟨m, σ⟩ := s
  constructor
  · intro h
    obtain ⟨u, hcomma, hrest⟩ := run_step h
    rcases step_comma hs hcomma with ⟨key, rfl, rfl⟩ | ⟨hm, hnext⟩
    · rw [List.cons_append, string_letter hc] at hrest
      cases hrest
    obtain ⟨b, σ', rfl, rfl⟩ := next_comma hnext
    refine ⟨hm, σ', ?_⟩
    cases b with
    | true =>
      rw [if_pos rfl, run_cons ⟨.string true, true :: σ'⟩ rfl, run_quoted hk, if_pos rfl,
        run_cons ⟨.value, true :: σ'⟩ rfl] at hrest
      exact ⟨rfl, (Option.some.inj hrest).symm⟩
    | false =>
      rw [if_neg Bool.false_ne_true, run_cons ⟨.string false, false :: σ'⟩ rfl,
        run_quoted hk] at hrest
      cases hrest
  · rintro ⟨hm, σ', hσ, rfl⟩
    obtain rfl : σ = true :: σ' := hσ
    have hcomma : step ⟨m, true :: σ'⟩ 44 = some ⟨.name, true :: σ'⟩ := by
      rw [step_ended hm (by decide)]
      rfl
    rw [run_cons _ hcomma, run_cons ⟨.string true, true :: σ'⟩ rfl, run_quoted hk, if_pos rfl]
    exact run_cons _ rfl

/-- The same behind the quote that ends the value of the member before. -/
theorem quoted_member (hs : Lettered s) (hk : Body (c :: k)) (hc : 97 ≤ c ∧ c ≤ 122) :
    run s (34 :: 44 :: 34 :: (c :: k ++ 34 :: [58])) = some s' ↔
      s.mode = .string false ∧ ∃ σ, s.stack = true :: σ ∧ s' = ⟨.value, s.stack⟩ := by
  obtain ⟨m, σ⟩ := s
  have hafter := further_member s' (lettered_after σ) hk hc
  constructor
  · intro h
    obtain ⟨u, hquote, hrest⟩ := run_step h
    rcases step_quote hs hquote with ⟨rfl, rfl⟩ | ⟨rfl, rfl⟩ | ⟨key, rfl⟩
    · exact ⟨rfl, (hafter.mp hrest).2⟩
    · cases hrest
    · rw [run_cons ⟨.string key, σ⟩ rfl, List.cons_append, string_letter hc] at hrest
      cases hrest
  · rintro ⟨rfl, hstack⟩
    rw [run_cons ⟨.after, σ⟩ rfl]
    exact hafter.mpr ⟨rfl, hstack⟩

/-- The end of an object whose last value is a number. -/
theorem accepts_tail (hs : Lettered s) (hk : Body (c :: k)) (hc : 97 ≤ c ∧ c ≤ 122) {n : Bytes}
    (hn : AnyNumber n) : Accepts s (44 :: 34 :: (c :: k ++ 34 :: 58 :: (n ++ [125]))) ↔
      ended s.mode = true ∧ s.stack = [true] := by
  have hcut : 44 :: 34 :: (c :: k ++ 34 :: 58 :: (n ++ [125])) =
      (44 :: 34 :: (c :: k ++ 34 :: [58])) ++ (n ++ [125]) := by simp
  have hend : ∀ σ, Accepts ⟨.value, true :: σ⟩ (n ++ [125]) ↔ σ = [] := by
    intro σ
    have hrun : run ⟨.value, true :: σ⟩ (n ++ [125]) = some ⟨.after, σ⟩ :=
      (run_number hn : Done (true :: σ) _).step (by decide)
    unfold Accepts
    rw [hrun]
    constructor
    · rintro ⟨m, h, _⟩
      exact congrArg State.stack (Option.some.inj h)
    · rintro rfl
      exact ⟨.after, rfl, rfl⟩
  rw [hcut]
  constructor
  · rintro ⟨m, hrun, hm⟩
    rw [run_append] at hrun
    obtain ⟨u, hmember, hrest⟩ := Option.bind_eq_some_iff.mp hrun
    obtain ⟨hended, σ, hσ, rfl⟩ := (further_member _ hs hk hc).mp hmember
    rw [hσ] at hrest
    obtain rfl := (hend σ).mp ⟨m, hrest, hm⟩
    exact ⟨hended, hσ⟩
  · rintro ⟨hended, hσ⟩
    rw [accepts_append ((further_member _ hs hk hc).mpr ⟨hended, [], hσ, rfl⟩), hσ]
    exact (hend []).mpr rfl

end Members

section Ends

private theorem run_braces (n : Nat) (σ : List Bool) :
    Accepts ⟨.after, σ⟩ (List.replicate n 125) ↔ σ = List.replicate n true := by
  induction n generalizing σ with
  | zero =>
    constructor
    · rintro ⟨m, h, _⟩
      exact congrArg State.stack (Option.some.inj h)
    · rintro rfl
      exact ⟨.after, rfl, rfl⟩
  | succ n ih =>
    rw [List.replicate_succ, List.replicate_succ, accepts_cons]
    constructor
    · rintro ⟨s', hstep, h⟩
      obtain ⟨σ', rfl, rfl⟩ := next_brace hstep
      rw [(ih σ').mp h]
    · rintro rfl
      exact ⟨_, rfl, (ih _).mpr rfl⟩

private theorem run_braces_string (n : Nat) :
    run ⟨.string key, σ⟩ (List.replicate n 125) = some ⟨.string key, σ⟩ := by
  induction n with
  | zero => rfl
  | succ n ih =>
    rw [List.replicate_succ, run_cons ⟨.string key, σ⟩ rfl]
    exact ih

/-- A quote and braces that close everything tell where a text stands before them. -/
theorem accepts_closing {n : Nat} (hs : Lettered s) (hn : 0 < n) :
    Accepts s (34 :: List.replicate n 125) ↔ s = ⟨.string false, List.replicate n true⟩ := by
  obtain ⟨m, σ⟩ := s
  constructor
  · intro h
    obtain ⟨s', hstep, hrest⟩ := accepts_cons.mp h
    rcases step_quote hs hstep with ⟨rfl, rfl⟩ | ⟨rfl, rfl⟩ | ⟨key, rfl⟩
    · rw [(run_braces n σ).mp hrest]
    · obtain ⟨n, rfl⟩ := Nat.exists_eq_succ_of_ne_zero (Nat.pos_iff_ne_zero.mp hn)
      obtain ⟨s', hbrace, _⟩ := accepts_cons.mp hrest
      cases hbrace
    · obtain ⟨m, hrun, hm⟩ := hrest
      rw [run_braces_string] at hrun
      obtain rfl : Mode.string key = m := congrArg State.mode (Option.some.inj hrun)
      cases hm
  · intro h
    rw [h]
    exact accepts_cons.mpr ⟨_, rfl, (run_braces n _).mpr rfl⟩

end Ends

end Cyctron.Json.Seams
