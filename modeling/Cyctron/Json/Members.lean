/- Cyctron/Json/Members
   digest: Objects whose last member is known: what stands before it are members as well. -/

import Cyctron.Json.Escape

set_option autoImplicit false
set_option relaxedAutoImplicit false

namespace Cyctron.Json.Members

open Cyctron.Base.CString Cyctron.Json.Text Cyctron.Json.Build
open Cyctron.Json.Escape (Plain)

variable {exponent num : Bytes → Prop} {d : Nat} {k : Kind} {ms : List (Bytes × Bytes)} {c : UInt8}
  {p e a t v b m q name number : Bytes}

/-- A byte that is not in the second part is in the first. -/
private theorem split_before (heq : p ++ c :: e = a ++ t) (ht : c ∉ t) :
    ∃ x, a = p ++ c :: x ∧ e = x ++ t := by
  rcases List.append_eq_append_iff.mp heq with ⟨x, rfl, hx⟩ | ⟨x, rfl, rfl⟩
  · cases x with
    | nil =>
      rw [List.nil_append] at hx
      exact absurd (hx ▸ List.mem_cons_self) ht
    | cons c' x =>
      obtain ⟨rfl, rfl⟩ := List.cons.inj hx
      exact ⟨x, rfl, rfl⟩
  · exact absurd (List.mem_append_right x List.mem_cons_self) ht

/-- Two cuts at the same byte are at the same place, or the second one comes later. -/
private theorem split_last (heq : p ++ c :: e = a ++ c :: t) (ht : c ∉ t) :
    (a = p ∧ e = t) ∨ ∃ x, a = p ++ c :: x ∧ e = x ++ c :: t := by
  have hsplit : p ++ c :: e = (a ++ [c]) ++ t := by simpa using heq
  obtain ⟨x, hx, rfl⟩ := split_before hsplit ht
  rcases List.eq_nil_or_concat x with rfl | ⟨x, c', rfl⟩
  · exact Or.inl ⟨List.append_cancel_right hx, rfl⟩
  · rw [List.concat_eq_append] at hx ⊢
    have hlast : a ++ [c] = (p ++ c :: x) ++ [c'] := by simpa using hx
    obtain rfl := List.singleton_inj.mp (List.append_inj_right' hlast rfl)
    exact Or.inr ⟨x, List.append_cancel_right hlast, by simp⟩

private theorem split_unique (heq : p ++ c :: e = a ++ c :: t) (he : c ∉ e) (ht : c ∉ t) :
    a = p ∧ e = t := by
  refine (split_last heq ht).resolve_right ?_
  rintro ⟨x, _, rfl⟩
  exact he (List.mem_append_right x List.mem_cons_self)

/-- A quote in the contents of a string has a backslash before it. -/
private theorem body_quote (h : Body b) (heq : b = p ++ c :: 34 :: q) : c = 92 := by
  have hfirst : ∀ {q : Bytes}, ¬Body (34 :: q) := by
    intro q h
    generalize hq : 34 :: q = t at h
    cases h with
    | nil => cases hq
    | plain _ quote _ _ => exact quote (List.cons.inj hq).1.symm
    | short _ _ => exact absurd (List.cons.inj hq).1 (by decide)
    | unicode _ _ _ => exact absurd (List.cons.inj hq).1 (by decide)
  induction h generalizing p with
  | nil => exact absurd heq.symm (by simp)
  | plain printable quote backslash rest ih =>
    cases p with
    | nil =>
      obtain ⟨_, rfl⟩ := List.cons.inj heq
      exact absurd rest hfirst
    | cons _ p => exact ih (List.cons.inj heq).2
  | @short c' b letter rest ih =>
    cases p with
    | nil => exact (List.cons.inj heq).1.symm
    | cons _ p =>
      cases p with
      | nil =>
        obtain ⟨_, rfl⟩ := List.cons.inj (List.cons.inj heq).2
        exact absurd rest hfirst
      | cons _ p => exact ih (List.cons.inj (List.cons.inj heq).2).2
  | @unicode hex b four digits rest ih =>
    cases p with
    | nil => exact (List.cons.inj heq).1.symm
    | cons _ p =>
      have hquote : 34 ∉ 117 :: hex := by
        intro h
        rcases List.mem_cons.mp h with h | h
        · exact absurd h (by decide)
        · exact absurd (digits 34 h) (by decide)
      have hsplit : (117 :: hex) ++ b = (p ++ [c]) ++ 34 :: q := by
        simpa using (List.cons.inj heq).2
      rcases List.append_eq_append_iff.mp hsplit with ⟨x, hx, rfl⟩ | ⟨x, hx, hrest⟩
      · rcases List.eq_nil_or_concat x with rfl | ⟨x, c', rfl⟩
        · exact absurd rest hfirst
        · rw [List.concat_eq_append, ← List.append_assoc] at hx
          obtain rfl := List.singleton_inj.mp (List.append_inj_right' hx rfl)
          exact ih (p := x) (by simp)
      · cases x with
        | nil =>
          rw [List.nil_append] at hrest
          exact absurd (hrest ▸ rest) hfirst
        | cons c' x =>
          obtain ⟨rfl, _⟩ := List.cons.inj hrest
          exact absurd (hx ▸ List.mem_append_right _ List.mem_cons_self) hquote

/-- The text ends with a digit or a sign. -/
def EndsInNumber (t : Bytes) : Prop := ∃ p c, t = p ++ [c] ∧ (isDigit c = true ∨ c = 45)

private theorem last_eq {c' : UInt8} (heq : p ++ [c] = a ++ [c']) : c = c' :=
  List.singleton_inj.mp (List.append_inj_right' heq rfl)

theorem EndsInNumber.right (h : EndsInNumber (a ++ b)) (hb : b ≠ []) : EndsInNumber b := by
  obtain ⟨p, c, heq, hc⟩ := h
  rcases List.eq_nil_or_concat b with rfl | ⟨b, c', rfl⟩
  · exact absurd rfl hb
  · rw [List.concat_eq_append] at heq ⊢
    rw [← List.append_assoc] at heq
    obtain rfl := last_eq heq
    exact ⟨b, c', rfl, hc⟩

/-- Only a number ends like a number. -/
private theorem value_ends (h : Derives num .value d t) (hend : EndsInNumber t) : num t := by
  obtain ⟨p, c, rfl, hc⟩ := hend
  have hother : ∀ (a : Bytes) (c' : UInt8), isDigit c' = false → c' ≠ 45 →
      p ++ [c] ≠ a ++ [c'] := by
    intro a c' hdigit hsign heq
    obtain rfl := last_eq heq
    rcases hc with hc | hc
    · rw [hdigit] at hc
      cases hc
    · exact hsign hc
  generalize heq : p ++ [c] = t at h
  cases h with
  | null => exact absurd heq (hother (ascii "nul") 108 (by decide) (by decide))
  | true => exact absurd heq (hother (ascii "tru") 101 (by decide) (by decide))
  | false => exact absurd heq (hother (ascii "fals") 101 (by decide) (by decide))
  | number h => exact h
  | @string _ b _ => exact absurd heq (hother (34 :: b) 34 (by decide) (by decide))
  | @emptyArray _ w _ => exact absurd heq (hother (91 :: w) 93 (by decide) (by decide))
  | @array _ e _ => exact absurd heq (hother (91 :: e) 93 (by decide) (by decide))
  | @emptyObject _ w _ => exact absurd heq (hother (123 :: w) 125 (by decide) (by decide))
  | @object _ _ m _ => exact absurd heq (hother (123 :: m) 125 (by decide) (by decide))

/-- Blanks at the end of a text that ends like a number are none. -/
private theorem blank_end {w : Bytes} (hw : Blank w) (hend : EndsInNumber (t ++ w)) : w = [] := by
  obtain ⟨p, c, heq, hc⟩ := hend
  rcases List.eq_nil_or_concat w with rfl | ⟨w, c', rfl⟩
  · rfl
  · rw [List.concat_eq_append] at heq hw
    rw [← List.append_assoc] at heq
    obtain rfl := last_eq heq
    have hws := hw c' (List.mem_append_right w List.mem_cons_self)
    rcases hc with hc | rfl
    · simp only [isWs, isDigit, Bool.or_eq_true, Bool.and_eq_true, decide_eq_true_eq] at hws hc
      grind
    · exact absurd hws (by decide)

/-- A value that ends like a number, with the blanks around it, has only the bytes of numbers. -/
private theorem padded_ends {w w' : Bytes} (hw : Blank w) (h : Derives (Number exponent) .value d v)
    (hw' : Blank w') (hend : EndsInNumber (w ++ (v ++ w'))) :
    w' = [] ∧ Number exponent v ∧ 34 ∉ w ++ v ∧ 58 ∉ w ++ v := by
  obtain rfl : w' = [] := blank_end (t := w ++ v) hw' (by rwa [List.append_assoc])
  rw [List.append_nil] at hend
  have hnumber : Number exponent v := value_ends h (hend.right (value_ne_nil h))
  have hbytes : ∀ c, isWs c = false → isDigit c = false → c ≠ 45 → c ≠ 43 → c ≠ 46 → c ≠ 101 →
      c ≠ 69 → c ∉ w ++ v := by
    intro c hws hdigit h1 h2 h3 h4 h5 hmem
    rcases List.mem_append.mp hmem with hmem | hmem
    · rw [hw c hmem] at hws
      cases hws
    · rcases number_bytes hnumber c hmem with h | h | h | h | h | h
      · rw [hdigit] at h
        cases h
      · exact h1 h
      · exact h2 h
      · exact h3 h
      · exact h4 h
      · exact h5 h
  refine ⟨rfl, hnumber, hbytes 34 ?_ ?_ ?_ ?_ ?_ ?_ ?_, hbytes 58 ?_ ?_ ?_ ?_ ?_ ?_ ?_⟩ <;> decide

section Tails

/-- What follows the comma before the last member. -/
def lastMember (name number : Bytes) : Bytes := 34 :: (name ++ 34 :: 58 :: number)

/-- A name of letters and a number that ends like one. -/
structure Tail (name number : Bytes) : Prop where
  name_plain : Plain name
  name_comma : 44 ∉ name
  number_plain : ∀ c ∈ number, c ≠ 44 ∧ c ≠ 58
  ends : EndsInNumber number

/-- A member whose value is an integer. -/
theorem tail_decimalInt (hname : Plain name) (hcomma : 44 ∉ name) (i : Int) :
    Tail name (decimalInt i) := by
  obtain ⟨hne, hall⟩ := decimalInt_shape i
  refine ⟨hname, hcomma, fun c hc => ⟨?_, ?_⟩, ?_⟩
  · rintro rfl
    exact absurd (hall 44 hc) (by decide)
  · rintro rfl
    exact absurd (hall 58 hc) (by decide)
  · obtain ⟨p, c, hp⟩ := (List.eq_nil_or_concat _).resolve_left hne
    rw [List.concat_eq_append] at hp
    exact ⟨p, c, hp, hall c (hp ▸ List.mem_append_right p List.mem_cons_self)⟩

private theorem Tail.ends_text (h : Tail name number) (t : Bytes) :
    EndsInNumber (t ++ lastMember name number) := by
  obtain ⟨p, c, hp, hc⟩ := h.ends
  exact ⟨t ++ lastMember name p, c, by simp [lastMember, hp], hc⟩

private theorem Tail.no_comma (h : Tail name number) : 44 ∉ lastMember name number := by
  intro hmem
  simp only [lastMember, List.mem_cons, List.mem_append] at hmem
  rcases hmem with hmem | hmem | hmem | hmem | hmem
  · exact absurd hmem (by decide)
  · exact h.name_comma hmem
  · exact absurd hmem (by decide)
  · exact absurd hmem (by decide)
  · exact (h.number_plain 44 hmem).1 rfl

/-- A single member does not end with another one. -/
private theorem member_not_last {w n x y w' : Bytes} (left : Blank w) (hn : Body n) (before : Blank x)
    (after : Blank y) (h : Derives (Number exponent) .value d v) (right : Blank w')
    (tail : Tail name number) (p : Bytes) :
    w ++ 34 :: (n ++ 34 :: (x ++ 58 :: (y ++ (v ++ w')))) ≠ p ++ 44 :: lastMember name number := by
  intro heq
  have hend : EndsInNumber (y ++ (v ++ w')) := by
    have hall := tail.ends_text (p ++ [44])
    have hshape : p ++ [44] ++ lastMember name number =
        (w ++ 34 :: (n ++ 34 :: (x ++ [58]))) ++ (y ++ (v ++ w')) := by simpa using heq.symm
    rw [hshape] at hall
    refine hall.right fun hnil => value_ne_nil h ?_
    exact (List.append_eq_nil_iff.mp (List.append_eq_nil_iff.mp hnil).2).1
  obtain ⟨rfl, _, _, hcolon⟩ := padded_ends after h right hend
  -- the colons, then the quotes after the names, then the quotes before them
  have hcolons : (w ++ 34 :: (n ++ 34 :: x)) ++ 58 :: (y ++ v) =
      (p ++ 44 :: 34 :: (name ++ [34])) ++ 58 :: number := by simpa [lastMember] using heq
  obtain ⟨hnames, _⟩ := split_unique hcolons hcolon fun hmem => (tail.number_plain 58 hmem).2 rfl
  have hblank : 34 ∉ x := fun hmem => absurd (before 34 hmem) (by decide)
  have hquotes : (w ++ 34 :: n) ++ 34 :: x = (p ++ 44 :: 34 :: name) ++ 34 :: [] := by
    simpa using hnames.symm
  obtain ⟨hopen, _⟩ := split_unique hquotes hblank List.not_mem_nil
  have hquote : w ++ 34 :: n = (p ++ [44]) ++ 34 :: name := by simpa using hopen.symm
  rcases split_last hquote fun hmem => (tail.name_plain 34 hmem).2.1 rfl with ⟨hw, _⟩ | ⟨z, hz, hn'⟩
  · exact absurd (left 44 (hw ▸ List.mem_append_right p List.mem_cons_self)) (by decide)
  · rcases List.eq_nil_or_concat z with rfl | ⟨z, c, rfl⟩
    · exact absurd (last_eq hz) (by decide)
    · rw [List.concat_eq_append] at hz hn'
      have hlast : p ++ [44] = (w ++ 34 :: z) ++ [c] := by simpa using hz
      obtain rfl := last_eq hlast
      have hbody : n = z ++ 44 :: 34 :: name := by simpa using hn'
      exact absurd (body_quote hn hbody) (by decide)

/-- What stands before a last member are members as well. -/
private theorem members_before_last (h : Derives (Number exponent) (.members ms) d t)
    (tail : Tail name number) (heq : t = p ++ 44 :: lastMember name number) :
    ∃ ms', Derives (Number exponent) (.members ms') d p := by
  generalize hk : Kind.members ms = k at h
  induction h generalizing p ms with
  | member left hn before after h right _ =>
    exact absurd heq (member_not_last left hn before after h right tail p)
  | @members d w n x y v w' m ms' left hn before after h right rest _ ih =>
    have hsplit : (w ++ 34 :: (n ++ 34 :: (x ++ 58 :: (y ++ (v ++ w'))))) ++ 44 :: m =
        p ++ 44 :: lastMember name number := by simpa using heq
    rcases split_last hsplit tail.no_comma with ⟨rfl, _⟩ | ⟨z, rfl, hm⟩
    · exact ⟨_, .member left hn before after h right⟩
    · obtain ⟨ms'', hms⟩ := ih hm rfl
      have hall := Derives.members left hn before after h right hms
      exact ⟨_, by simpa using hall⟩
  | _ => cases hk

end Tails

section Spliced

variable {m m' raw n : Bytes} {ms' : List (Bytes × Bytes)}

/-- Members with a comma between them. -/
private theorem members_append (h : Derives num (.members ms) d m)
    (h' : Derives num (.members ms') d m') :
    Derives num (.members (ms ++ ms')) d (m ++ 44 :: m') := by
  generalize hk : Kind.members ms = k at h
  induction h generalizing ms with
  | member left name before after h right _ =>
    obtain rfl := Kind.members.inj hk
    have hmembers := Derives.members left name before after h right h'
    simpa using hmembers
  | members left name before after h right rest _ ih =>
    obtain rfl := Kind.members.inj hk
    have hmembers := Derives.members left name before after h right (ih h' rfl)
    simpa using hmembers
  | _ => cases hk

/-- A value, with the blanks around it, and perhaps further members behind it. -/
def Spliced (num : Bytes → Prop) (raw : Bytes) : Prop :=
  ∃ d v t, Padded num d t v ∧
    (raw = t ∨ ∃ m ms, raw = t ++ 44 :: m ∧ Derives num (.members ms) d m)

/-- The texts that make members when they stand behind a name. -/
private theorem spliced_iff (hn : Body n) :
    (∃ d ms, Derives num (.members ms) d (34 :: (n ++ 34 :: 58 :: raw))) ↔ Spliced num raw := by
  have hopening : ∀ {w n' x y r : Bytes}, Blank w → Body n' → Blank x →
      34 :: (n ++ 34 :: 58 :: raw) = w ++ 34 :: (n' ++ 34 :: (x ++ 58 :: (y ++ r))) →
      raw = y ++ r := by
    intro w n' x y r left name before heq
    obtain ⟨rfl, hname⟩ := blank_head left (by decide) heq.symm
    obtain ⟨rfl, hcolon⟩ := body_unique name hn (List.cons.inj hname).2
    obtain ⟨rfl, hafter⟩ := blank_head before (by decide) hcolon
    exact (List.cons.inj hafter).2.symm
  constructor
  · rintro ⟨d, ms, h⟩
    generalize heq : 34 :: (n ++ 34 :: 58 :: raw) = t at h
    cases h with
    | @member _ w n' x y v w' left name before after h right =>
      exact ⟨d, v, _, ⟨y, w', after, right, h, rfl⟩, Or.inl (hopening left name before heq)⟩
    | @members _ w n' x y v w' m ms left name before after h right rest =>
      have hraw := hopening left name before heq
      exact ⟨d, v, _, ⟨y, w', after, right, h, rfl⟩, Or.inr ⟨m, ms, by simpa using hraw, rest⟩⟩
  · rintro ⟨d, v, t, ⟨w, w', hw, hw', hv, rfl⟩, rfl | ⟨m, ms, rfl, hm⟩⟩
    · exact ⟨d, _, .member blank_nil hn blank_nil hw hv hw'⟩
    · have hmembers := Derives.members blank_nil hn blank_nil hw hv hw' hm
      exact ⟨d, _, by simpa using hmembers⟩

/-- What follows the first name of an object begins a value. -/
theorem object_value {u : Bytes} (hn : Body n) (hc : isWs c = false)
    (h : Object (Number exponent) d ms (123 :: 34 :: (n ++ 34 :: 58 :: c :: u))) :
    ∃ v, Derives (Number exponent) .value d (c :: v) := by
  obtain ⟨m, r, heq, hm⟩ := object_members h
  have hvalue : ∀ {w n' x y v r' : Bytes}, Blank w → Body n' → Blank x → Blank y →
      Derives (Number exponent) .value d v →
      w ++ 34 :: (n' ++ 34 :: (x ++ 58 :: (y ++ (v ++ r')))) = 34 :: (n ++ 34 :: 58 :: c :: u) →
      ∃ v, Derives (Number exponent) .value d (c :: v) := by
    intro w n' x y v r' left name before after hv heq
    obtain ⟨rfl, hname⟩ := blank_head left (by decide) heq
    obtain ⟨rfl, hcolon⟩ := body_unique name hn (List.cons.inj hname).2
    obtain ⟨rfl, hafter⟩ := blank_head before (by decide) hcolon
    obtain ⟨rfl, hfirst⟩ := blank_head after hc (List.cons.inj hafter).2
    cases v with
    | nil => exact absurd rfl (value_ne_nil hv)
    | cons c' v =>
      obtain ⟨rfl, _⟩ := List.cons.inj hfirst
      exact ⟨v, hv⟩
  cases hm with
  | member left name before after hv right =>
    exact hvalue left name before after hv (by simpa using heq)
  | members left name before after hv right rest =>
    exact hvalue left name before after hv (by simpa using heq)

/-- The name that an object begins with is the name of its first member. -/
theorem object_name {v r : Bytes} (hn : Body n)
    (h : Object (Number exponent) d ((m, v) :: ms) (123 :: 34 :: (n ++ 34 :: r))) : m = n := by
  obtain ⟨t, u, heq, hm⟩ := object_members h
  have hopening : ∀ {w n' x r' : Bytes}, Blank w → Body n' →
      w ++ 34 :: (n' ++ 34 :: (x ++ r')) = 34 :: (n ++ 34 :: r) → n' = n := by
    intro w n' x r' left name heq
    obtain ⟨rfl, hname⟩ := blank_head left (by decide) heq
    exact (body_unique name hn (List.cons.inj hname).2).1
  cases hm with
  | member left name before after hv right =>
    exact hopening left name (by simpa using heq)
  | members left name before after hv right rest =>
    exact hopening left name (by simpa using heq)

/-- The members between the braces of an object. -/
private theorem object_inner (h : Object num d ms (123 :: 34 :: (t ++ [125]))) :
    Derives num (.members ms) d (34 :: t) := by
  obtain ⟨m, u, heq, hm, blank⟩ := object_parts h
  have hsplit : m ++ 125 :: u = (34 :: t) ++ 125 :: [] := heq
  have hnone : 125 ∉ u := fun hmem => absurd (blank 125 hmem) (by decide)
  obtain ⟨rfl, _⟩ := split_unique hsplit hnone List.not_mem_nil
  exact hm

/-- An object of a string, a raw text and a number is one exactly when the text is spliced in. -/
theorem object_spliced_iff {first b : Bytes} (hfirst : Body first) (hb : Body b) (hn : Body n)
    (hname : Body name) (hnumber : Number exponent number) (tail : Tail name number) :
    (∃ d ms, Object (Number exponent) d ms
      (compact [(first, quoted b), (n, raw), (name, number)])) ↔ Spliced (Number exponent) raw := by
  have htext : compact [(first, quoted b), (n, raw), (name, number)] =
      123 :: 34 :: (first ++ 34 :: 58 :: 34 :: (b ++ 34 :: 44 :: 34 :: (n ++ 34 :: 58 :: (raw ++
        44 :: lastMember name number))) ++ [125]) := by
    simp [compact, joined, memberText, quoted, lastMember]
  rw [htext, ← spliced_iff hn]
  constructor
  · rintro ⟨d, ms, h⟩
    have hinner := object_inner h
    obtain ⟨ms', hms⟩ := members_before_last (p := 34 :: (first ++ 34 :: 58 :: 34 :: (b ++
      34 :: 44 :: 34 :: (n ++ 34 :: 58 :: raw)))) hinner tail (by simp)
    obtain ⟨ms'', t, _, ht, heq⟩ := members_head (m := 34 :: (n ++ 34 :: 58 :: raw) ++ [125])
      (u := []) hfirst hb hms (by simp)
    obtain rfl : t = 34 :: (n ++ 34 :: 58 :: raw) := List.append_cancel_right heq
    exact ⟨d, ms'', ht⟩
  · rintro ⟨d, ms, h⟩
    have hone : Derives (Number exponent) (.members [(first, quoted b)]) d
        (34 :: (first ++ 34 :: 58 :: quoted b)) := by
      have hmember : Derives (Number exponent) (.members [(first, quoted b)]) d _ :=
        .member blank_nil hfirst blank_nil blank_nil (.string hb) blank_nil
      simpa [quoted] using hmember
    have hlast :
        Derives (Number exponent) (.members [(name, number)]) d (lastMember name number) := by
      have hmember : Derives (Number exponent) (.members [(name, number)]) d _ :=
        .member blank_nil hname blank_nil blank_nil (.number hnumber) blank_nil
      simpa [lastMember] using hmember
    have hall := members_append hone (members_append h hlast)
    have hobject := Object.full blank_nil hall blank_nil
    exact ⟨d, _, by simpa [quoted] using hobject⟩

end Spliced

end Cyctron.Json.Members
