/- Cyctron/Json/Build
   digest: Objects written member by member, the bytes of a text, and members that can be read off. -/

import Cyctron.Json.Text
import Mathlib.Data.List.TakeWhile
import Mathlib.Data.Nat.Digits.Defs
import Mathlib.Tactic.IntervalCases

set_option autoImplicit false
set_option relaxedAutoImplicit false

namespace Cyctron.Json.Build

open Cyctron.Base.CString Cyctron.Json.Text

variable {num exponent : Bytes → Prop} {d : Nat} {t v n b r : Bytes} {ms ms' : List (Bytes × Bytes)}
  {k : Kind}

/-- A value with blanks around it. -/
def Padded (num : Bytes → Prop) (d : Nat) (t v : Bytes) : Prop :=
  ∃ w w', Blank w ∧ Blank w' ∧ Derives num .value d v ∧ t = w ++ (v ++ w')

theorem blank_nil : Blank [] := fun _ hc => absurd hc List.not_mem_nil

theorem padded_self (h : Derives num .value d v) : Padded num d v v :=
  ⟨[], [], blank_nil, blank_nil, h, by simp⟩

theorem padded_quoted (h : Body b) : Padded num d (quoted b) (quoted b) :=
  padded_self (Derives.string h)

/-- A member without blanks, and members with commas between them. -/
def memberText (m : Bytes × Bytes) : Bytes := 34 :: (m.1 ++ 34 :: 58 :: m.2)

def joined : List (Bytes × Bytes) → Bytes
  | [] => []
  | [m] => memberText m
  | m :: m' :: ms => memberText m ++ 44 :: joined (m' :: ms)

/-- An object without blanks between its members. -/
def compact (ms : List (Bytes × Bytes)) : Bytes := 123 :: (joined ms ++ [125])

/-- What the templates of the source write between their values, as parts of such an object. -/
theorem close_text : ascii "\x7d" = [125] := by decide

theorem type_text : ascii "\x7b\"type\":\"" = 123 :: 34 :: (ascii "type" ++ [34, 58, 34]) := by
  decide

theorem data_text : ascii "\",\"data\":" = 34 :: 44 :: 34 :: (ascii "data" ++ [34, 58]) := by decide

theorem stamp_text : ascii ",\"timestamp\":" = 44 :: 34 :: (ascii "timestamp" ++ [34, 58]) := by
  decide

/-- The texts of the members hold values, which may have blanks around them. -/
inductive Fills (num : Bytes → Prop) (d : Nat) :
    List (Bytes × Bytes) → List (Bytes × Bytes) → Prop
  | one {n t v : Bytes} (name : Body n) (h : Padded num d t v) : Fills num d [(n, t)] [(n, v)]
  | cons {n t v : Bytes} {ms ms' : List (Bytes × Bytes)} (name : Body n) (h : Padded num d t v)
      (rest : Fills num d ms ms') : Fills num d ((n, t) :: ms) ((n, v) :: ms')

theorem Fills.derives (h : Fills num d ms ms') : Derives num (.members ms') d (joined ms) := by
  induction h with
  | @one n t v name h =>
    obtain ⟨w, w', hw, hw', hv, rfl⟩ := h
    have hmember := Derives.member blank_nil name blank_nil hw hv hw'
    simpa [joined, memberText] using hmember
  | @cons n t v ms ms' name h rest ih =>
    obtain ⟨w, w', hw, hw', hv, rfl⟩ := h
    have hmembers := Derives.members blank_nil name blank_nil hw hv hw' ih
    cases rest with
    | one _ _ => simpa [joined, memberText] using hmembers
    | cons _ _ _ => simpa [joined, memberText] using hmembers

theorem object_compact (h : Fills num d ms ms') : Object num d ms' (compact ms) := by
  have hfull : Object num d ms' ([] ++ 123 :: (joined ms ++ 125 :: [])) :=
    .full blank_nil h.derives blank_nil
  simpa [compact] using hfull

/-- A compact object is a value in its turn. -/
theorem padded_compact (h : Fills num d ms ms') : Padded num (d + 1) (compact ms) (compact ms) :=
  padded_self (Derives.object h.derives)

section Numbers

theorem number_head (h : Number exponent t) : ∃ c t', t = c :: t' ∧ (c = 45 ∨ isDigit c = true) := by
  cases h with
  | @mk sign int frac exp signed digits _ _ =>
    have hint : ∃ c i', int = c :: i' ∧ isDigit c = true := by
      rcases digits with rfl | ⟨⟨hne, hall⟩, _⟩
      · exact ⟨48, [], rfl, by decide⟩
      · cases int with
        | nil => exact absurd rfl hne
        | cons c i' => exact ⟨c, i', rfl, hall c List.mem_cons_self⟩
    obtain ⟨c, i', rfl, hc⟩ := hint
    rcases signed with rfl | rfl
    · exact ⟨c, _, rfl, Or.inr hc⟩
    · exact ⟨45, _, rfl, Or.inl rfl⟩

/-- The bytes of a number: digits, signs, the point and the letters of the exponent. -/
theorem number_bytes (h : Number exponent t) : ∀ c ∈ t,
    isDigit c = true ∨ c = 45 ∨ c = 43 ∨ c = 46 ∨ c = 101 ∨ c = 69 := by
  cases h with
  | @mk sign int frac exp signed digits fraction scale =>
    intro c hc
    simp only [List.mem_append] at hc
    rcases hc with hc | hc | hc | hc
    · rcases signed with rfl | rfl
      · exact absurd hc List.not_mem_nil
      · exact Or.inr (Or.inl (List.mem_singleton.mp hc))
    · rcases digits with rfl | ⟨digits, _⟩
      · obtain rfl := List.mem_singleton.mp hc
        exact Or.inl (by decide)
      · exact Or.inl (digits.2 c hc)
    · rcases fraction with rfl | ⟨f, digits, rfl⟩
      · exact absurd hc List.not_mem_nil
      · rcases List.mem_cons.mp hc with rfl | hc
        · simp
        · exact Or.inl (digits.2 c hc)
    · rcases scale with rfl | ⟨e, s, f, he, hs, digits, _, rfl⟩
      · exact absurd hc List.not_mem_nil
      · simp only [List.mem_cons, List.mem_append] at hc
        rcases hc with rfl | hc | hc
        · rcases he with rfl | rfl <;> simp
        · rcases hs with rfl | rfl | rfl
          · exact absurd hc List.not_mem_nil
          · obtain rfl := List.mem_singleton.mp hc
            simp
          · obtain rfl := List.mem_singleton.mp hc
            simp
        · exact Or.inl (digits.2 c hc)

theorem isDigit_ofNat {c : Char} (h : c.isDigit = true) :
    isDigit (UInt8.ofNat c.toNat) = true := by
  simp only [Char.isDigit, Bool.and_eq_true, decide_eq_true_eq] at h
  have hlow : 48 ≤ c.toNat := h.1
  have hhigh : c.toNat ≤ 57 := h.2
  generalize c.toNat = k at hlow hhigh
  interval_cases k <;> decide

theorem decimal_digits (n : Nat) : Digits (decimal n) := by
  constructor
  · simp [decimal, Nat.toDigits_ne_nil]
  · intro c hc
    obtain ⟨a, ha, rfl⟩ := List.mem_map.mp hc
    exact isDigit_ofNat (Nat.isDigit_of_mem_toDigits (by decide) (by decide) ha)

/-- A number that is not zero does not begin with the digit zero. -/
theorem decimal_head {n : Nat} (h : 0 < n) : (decimal n).head? ≠ some 48 := by
  induction n using Nat.strongRecOn with
  | ind n ih =>
    unfold decimal
    rcases Nat.lt_or_ge n 10 with hlt | hge
    · rw [Nat.toDigits_of_lt_base hlt]
      interval_cases n <;> decide
    · have hrest := ih (n / 10) (by omega) (by omega)
      rw [Nat.toDigits_of_base_le (by decide) hge, List.map_append, List.head?_append]
      unfold decimal at hrest
      cases hhead : (List.map (fun c : Char => UInt8.ofNat c.toNat)
          (Nat.toDigits 10 (n / 10))).head? with
      | none =>
        rw [List.head?_eq_none_iff, List.map_eq_nil_iff] at hhead
        exact absurd hhead Nat.toDigits_ne_nil
      | some c =>
        rw [hhead] at hrest
        exact hrest

theorem decimal_length {n e : Nat} (h : n < 10 ^ e) (he : 0 < e) : (decimal n).length ≤ e := by
  rw [decimal, List.length_map]
  exact Nat.toDigits_length 10 n e he h

theorem decimalInt_length {i : Int} {e : Nat} (h : i.natAbs < 10 ^ e) (he : 0 < e) :
    (decimalInt i).length ≤ e + 1 := by
  cases i with
  | ofNat n => exact Nat.le_succ_of_le (decimal_length h he)
  | negSucc n =>
    rw [decimalInt, List.length_cons]
    exact Nat.succ_le_succ (decimal_length h he)

/-- The bytes of an integer. -/
theorem decimalInt_shape (i : Int) :
    decimalInt i ≠ [] ∧ ∀ c ∈ decimalInt i, isDigit c = true ∨ c = 45 := by
  cases i with
  | ofNat n =>
    obtain ⟨hne, hall⟩ := decimal_digits n
    exact ⟨hne, fun c hc => Or.inl (hall c hc)⟩
  | negSucc n =>
    refine ⟨List.cons_ne_nil 45 _, fun c hc => ?_⟩
    rcases List.mem_cons.mp hc with rfl | hc
    · exact Or.inr rfl
    · exact Or.inl ((decimal_digits (n + 1)).2 c hc)

theorem decimalInt_ascii (id : Int) : ∀ c ∈ decimalInt id, c.toNat < 128 := by
  intro c hc
  obtain ⟨_, hall⟩ := decimalInt_shape id
  rcases hall c hc with hdigit | rfl
  · have hle : c ≤ 57 := by
      simp only [isDigit, Bool.and_eq_true, decide_eq_true_eq] at hdigit
      exact hdigit.2
    exact Nat.lt_of_le_of_lt (UInt8.le_iff_toNat_le.mp hle) (by decide)
  · decide

theorem number_decimal (n : Nat) : Number exponent (decimal n) := by
  have hint : decimal n = [48] ∨ (Digits (decimal n) ∧ (decimal n).head? ≠ some 48) := by
    rcases Nat.eq_zero_or_pos n with rfl | hpos
    · exact Or.inl (by decide)
    · exact Or.inr ⟨decimal_digits n, decimal_head hpos⟩
  have hnum : Number exponent ([] ++ (decimal n ++ ([] ++ []))) :=
    .mk (Or.inl rfl) hint (Or.inl rfl) (Or.inl rfl)
  simpa using hnum

theorem number_decimalInt (i : Int) : Number exponent (decimalInt i) := by
  cases i with
  | ofNat n => exact number_decimal n
  | negSucc n =>
    have hnum : Number exponent ([45] ++ (decimal (n + 1) ++ ([] ++ []))) :=
      .mk (Or.inr rfl) (Or.inr ⟨decimal_digits (n + 1), decimal_head (Nat.succ_pos n)⟩)
        (Or.inl rfl) (Or.inl rfl)
    simpa [decimalInt] using hnum

end Numbers

section Bytes

variable {c : UInt8} {w r r' b' x y : Bytes}

/-- The bytes that a text may have. -/
def Legible (t : Bytes) : Prop := ∀ c ∈ t, 32 ≤ c ∨ isWs c = true

instance (t : Bytes) : Decidable (Legible t) :=
  List.decidableBAll (fun c => 32 ≤ c ∨ isWs c = true) t

theorem legible_nil : Legible [] := fun _ hc => absurd hc List.not_mem_nil

theorem legible_cons : Legible (c :: t) ↔ (32 ≤ c ∨ isWs c = true) ∧ Legible t :=
  List.forall_mem_cons

theorem legible_append : Legible (t ++ r) ↔ Legible t ∧ Legible r := List.forall_mem_append

theorem Legible.of_le (h : ∀ c ∈ t, 32 ≤ c) : Legible t := fun c hc => Or.inl (h c hc)

theorem legible_blank (h : Blank w) : Legible w := fun c hc => Or.inr (h c hc)

theorem isDigit_le (h : isDigit c = true) : 32 ≤ c := by
  simp only [isDigit, Bool.and_eq_true, decide_eq_true_eq] at h
  exact UInt8.le_trans (by decide) h.1

theorem isHex_le (h : isHex c = true) : 32 ≤ c := by
  simp only [isHex, Bool.or_eq_true, Bool.and_eq_true, decide_eq_true_eq] at h
  rcases h with (h | h) | h
  · exact isDigit_le h
  · exact UInt8.le_trans (by decide) h.1
  · exact UInt8.le_trans (by decide) h.1

theorem isShort_le (h : isShort c = true) : 32 ≤ c := by
  simp only [isShort, Bool.or_eq_true, decide_eq_true_eq] at h
  rcases h with (((((((rfl | rfl) | rfl) | rfl) | rfl) | rfl) | rfl) | rfl) <;> decide

theorem legible_body (h : Body b) : Legible b := by
  induction h with
  | nil => exact legible_nil
  | plain printable _ _ _ ih => exact legible_cons.mpr ⟨Or.inl printable, ih⟩
  | short letter _ ih =>
    exact legible_cons.mpr ⟨Or.inl (by decide), legible_cons.mpr ⟨Or.inl (isShort_le letter), ih⟩⟩
  | unicode _ hex _ ih =>
    exact legible_cons.mpr ⟨Or.inl (by decide), legible_cons.mpr ⟨Or.inl (by decide),
      legible_append.mpr ⟨.of_le fun c hc => isHex_le (hex c hc), ih⟩⟩⟩

theorem legible_number (h : Number exponent t) : Legible t := by
  refine .of_le fun c hc => ?_
  rcases number_bytes h c hc with h | rfl | rfl | rfl | rfl | rfl
  · exact isDigit_le h
  all_goals decide

/-- No text holds a control character that is not a blank. -/
theorem legible_derives (h : Derives (Number exponent) k d t) : Legible t := by
  have sep : ∀ {c : UInt8} {t : Bytes}, 32 ≤ c → Legible t → Legible (c :: t) :=
    fun hc ht => legible_cons.mpr ⟨Or.inl hc, ht⟩
  have one : ∀ {c : UInt8}, 32 ≤ c → Legible [c] := fun hc => sep hc legible_nil
  induction h with
  | null => decide
  | true => decide
  | false => decide
  | number h => exact legible_number h
  | string h => exact sep (by decide) (legible_append.mpr ⟨legible_body h, one (by decide)⟩)
  | emptyArray blank =>
    exact sep (by decide) (legible_append.mpr ⟨legible_blank blank, one (by decide)⟩)
  | array _ ih => exact sep (by decide) (legible_append.mpr ⟨ih, one (by decide)⟩)
  | emptyObject blank =>
    exact sep (by decide) (legible_append.mpr ⟨legible_blank blank, one (by decide)⟩)
  | object _ ih => exact sep (by decide) (legible_append.mpr ⟨ih, one (by decide)⟩)
  | element left _ right ih =>
    simp only [legible_append]
    exact ⟨legible_blank left, ih, legible_blank right⟩
  | elements left _ right _ ih ih' =>
    simp only [legible_append]
    exact ⟨legible_blank left, ih, legible_blank right, sep (by decide) ih'⟩
  | member left name before after _ right ih =>
    refine legible_append.mpr ⟨legible_blank left, sep (by decide) ?_⟩
    refine legible_append.mpr ⟨legible_body name, sep (by decide) ?_⟩
    refine legible_append.mpr ⟨legible_blank before, sep (by decide) ?_⟩
    simp only [legible_append]
    exact ⟨legible_blank after, ih, legible_blank right⟩
  | members left name before after _ right _ ih ih' =>
    refine legible_append.mpr ⟨legible_blank left, sep (by decide) ?_⟩
    refine legible_append.mpr ⟨legible_body name, sep (by decide) ?_⟩
    refine legible_append.mpr ⟨legible_blank before, sep (by decide) ?_⟩
    simp only [legible_append]
    exact ⟨legible_blank after, ih, legible_blank right, sep (by decide) ih'⟩

theorem legible_object (h : Object (Number exponent) d ms t) : Legible t := by
  have brace : ∀ {c : UInt8} {t : Bytes}, 32 ≤ c → Legible t → Legible (c :: t) :=
    fun hc ht => legible_cons.mpr ⟨Or.inl hc, ht⟩
  cases h with
  | empty left inner right =>
    exact legible_append.mpr ⟨legible_blank left, brace (by decide)
      (legible_append.mpr ⟨legible_blank inner, brace (by decide) (legible_blank right)⟩)⟩
  | full left h right =>
    exact legible_append.mpr ⟨legible_blank left, brace (by decide)
      (legible_append.mpr ⟨legible_derives h, brace (by decide) (legible_blank right)⟩)⟩

/-- An object ends with a brace and blanks. -/
theorem object_last (h : Object num d ms (t ++ [c])) : c = 125 ∨ isWs c = true := by
  have hend : ∀ {l w' : Bytes}, Blank w' → l ++ 125 :: w' = t ++ [c] → c = 125 ∨ isWs c = true := by
    intro l w' hw heq
    rcases List.eq_nil_or_concat w' with rfl | ⟨w'', a, rfl⟩
    · exact Or.inl (List.singleton_inj.mp (List.append_inj_right' heq rfl)).symm
    · rw [List.concat_eq_append] at heq hw
      have hsplit : (l ++ 125 :: w'') ++ [a] = t ++ [c] := by simpa using heq
      obtain rfl := List.singleton_inj.mp (List.append_inj_right' hsplit rfl)
      exact Or.inr (hw a (by simp))
  generalize heq : t ++ [c] = t' at h
  cases h with
  | @empty w x w' _ _ right => exact hend (l := w ++ 123 :: x) right (by simpa using heq.symm)
  | @full w m w' _ _ _ right => exact hend (l := w ++ 123 :: m) right (by simpa using heq.symm)

end Bytes

section Heads

variable {c : UInt8} {w r r' b' n' m : Bytes}

/-- A body ends at the first quote that is not escaped. -/
theorem body_unique (h : Body b) (h' : Body b') (heq : b ++ 34 :: r = b' ++ 34 :: r') :
    b = b' ∧ r = r' := by
  induction h generalizing b' with
  | nil =>
    cases h' with
    | nil => exact ⟨rfl, (List.cons.inj heq).2⟩
    | plain _ quote _ _ => exact absurd (List.cons.inj heq).1.symm quote
    | short _ _ => exact absurd (List.cons.inj heq).1 (by decide)
    | unicode _ _ _ => exact absurd (List.cons.inj heq).1 (by decide)
  | plain _ quote backslash _ ih =>
    cases h' with
    | nil => exact absurd (List.cons.inj heq).1 quote
    | plain _ _ _ rest =>
      obtain ⟨rfl, htail⟩ := List.cons.inj heq
      obtain ⟨rfl, rfl⟩ := ih rest htail
      exact ⟨rfl, rfl⟩
    | short _ _ => exact absurd (List.cons.inj heq).1 backslash
    | unicode _ _ _ => exact absurd (List.cons.inj heq).1 backslash
  | short letter _ ih =>
    cases h' with
    | nil => exact absurd (List.cons.inj heq).1 (by decide)
    | plain _ _ backslash _ => exact absurd (List.cons.inj heq).1.symm backslash
    | short _ rest =>
      simp only [List.cons_append, List.cons.injEq, true_and] at heq
      obtain ⟨rfl, htail⟩ := heq
      obtain ⟨rfl, rfl⟩ := ih rest htail
      exact ⟨rfl, rfl⟩
    | unicode _ _ _ =>
      obtain ⟨rfl, _⟩ := List.cons.inj (List.cons.inj heq).2
      exact absurd letter (by decide)
  | unicode four _ _ ih =>
    cases h' with
    | nil => exact absurd (List.cons.inj heq).1 (by decide)
    | plain _ _ backslash _ => exact absurd (List.cons.inj heq).1.symm backslash
    | short letter _ =>
      obtain ⟨rfl, _⟩ := List.cons.inj (List.cons.inj heq).2
      exact absurd letter (by decide)
    | unicode four' _ rest =>
      simp only [List.cons_append, List.cons.injEq, true_and, List.append_assoc] at heq
      obtain ⟨rfl, htail⟩ := List.append_inj heq (four.trans four'.symm)
      obtain ⟨rfl, rfl⟩ := ih rest htail
      exact ⟨rfl, rfl⟩

/-- Blanks before something that is not blank are read off. -/
theorem blank_head (h : Blank w) (hc : isWs c = false) (heq : w ++ r = c :: r') :
    w = [] ∧ r = c :: r' := by
  cases w with
  | nil => exact ⟨rfl, heq⟩
  | cons a w =>
    obtain ⟨rfl, _⟩ := List.cons.inj heq
    exact absurd (h a List.mem_cons_self) (by simp [hc])

/-- A value that begins with a quote is a string. -/
theorem value_string (h : Derives (Number exponent) .value d (34 :: t)) :
    ∃ b, Body b ∧ 34 :: t = quoted b := by
  generalize heq : 34 :: t = t' at h
  cases h with
  | null => exact absurd (List.cons.inj heq).1 (by decide)
  | true => exact absurd (List.cons.inj heq).1 (by decide)
  | false => exact absurd (List.cons.inj heq).1 (by decide)
  | number h =>
    obtain ⟨c, t'', rfl, hc⟩ := number_head h
    obtain ⟨rfl, _⟩ := List.cons.inj heq
    exact absurd hc (by decide)
  | string h => exact ⟨_, h, rfl⟩
  | emptyArray _ => exact absurd (List.cons.inj heq).1 (by decide)
  | array _ => exact absurd (List.cons.inj heq).1 (by decide)
  | emptyObject _ => exact absurd (List.cons.inj heq).1 (by decide)
  | object _ => exact absurd (List.cons.inj heq).1 (by decide)

/-- A string with a comma after it is read off the front of a text that begins with a value. -/
theorem string_head (h : Derives (Number exponent) .value d v) (hb : Body b)
    (heq : v ++ r = 34 :: (b ++ 34 :: r')) : v = quoted b ∧ r = r' := by
  cases v with
  | nil => exact absurd h (by
      intro h
      generalize heq : ([] : Bytes) = t' at h
      cases h with
      | number h =>
        obtain ⟨c, t'', rfl, _⟩ := number_head h
        exact absurd heq (by simp)
      | _ => exact absurd heq (by simp [ascii]))
  | cons c v =>
    obtain ⟨rfl, hrest⟩ := List.cons.inj heq
    obtain ⟨b', hb', hv⟩ := value_string h
    obtain rfl := (List.cons.inj hv).2
    obtain ⟨rfl, rfl⟩ := body_unique hb' hb (by simpa using hrest)
    exact ⟨rfl, rfl⟩

/-- The first member is read off when its value is a string with a comma after it. -/
theorem members_head {u : Bytes} (hn : Body n) (hb : Body b)
    (h : Derives (Number exponent) (.members ms) d t)
    (heq : t ++ 125 :: u = 34 :: (n ++ 34 :: 58 :: 34 :: (b ++ 34 :: 44 :: m))) :
    ∃ ms' t', ms = (n, quoted b) :: ms' ∧ Derives (Number exponent) (.members ms') d t' ∧
      t' ++ 125 :: u = m := by
  have opening : ∀ {w n' x y v r : Bytes}, Blank w → Body n' → Blank x → Blank y →
      Derives (Number exponent) .value d v →
      w ++ 34 :: (n' ++ 34 :: (x ++ 58 :: (y ++ (v ++ r)))) =
        34 :: (n ++ 34 :: 58 :: 34 :: (b ++ 34 :: 44 :: m)) →
      n' = n ∧ v = quoted b ∧ r = 44 :: m := by
    intro w n' x y v r left name before after hv heq
    obtain ⟨rfl, hname⟩ := blank_head left (by decide) heq
    obtain ⟨rfl, hcolon⟩ := body_unique name hn (List.cons.inj hname).2
    obtain ⟨rfl, hafter⟩ := blank_head before (by decide) hcolon
    obtain ⟨rfl, hvalue⟩ := blank_head after (by decide) (List.cons.inj hafter).2
    obtain ⟨rfl, rfl⟩ := string_head hv hb hvalue
    exact ⟨rfl, rfl, rfl⟩
  cases h with
  | member left name before after hv right =>
    obtain ⟨_, _, hrest⟩ := opening left name before after hv (by simpa using heq)
    obtain ⟨rfl, hrest⟩ := blank_head right (by decide) hrest
    exact absurd (List.cons.inj hrest).1 (by decide)
  | members left name before after hv right rest =>
    obtain ⟨rfl, rfl, hrest⟩ := opening left name before after hv (by simpa using heq)
    obtain ⟨rfl, hrest⟩ := blank_head right (by decide) hrest
    exact ⟨_, _, rfl, rest, (List.cons.inj hrest).2⟩

/-- An object that begins with a brace and a name: its members, its end, and blanks. -/
theorem object_parts (h : Object num d ms (123 :: 34 :: t)) :
    ∃ m u, m ++ 125 :: u = 34 :: t ∧ Derives num (.members ms) d m ∧ Blank u := by
  generalize heq : 123 :: 34 :: t = t' at h
  cases h with
  | empty left inner right =>
    obtain ⟨rfl, hbrace⟩ := blank_head left (by decide) heq.symm
    obtain ⟨rfl, hquote⟩ := blank_head (c := 34) inner (by decide) (List.cons.inj hbrace).2
    exact absurd (List.cons.inj hquote).1 (by decide)
  | full left h right =>
    obtain ⟨rfl, hbrace⟩ := blank_head left (by decide) heq.symm
    exact ⟨_, _, (List.cons.inj hbrace).2, h, right⟩

/-- The members of an object that begins with a brace and a name. -/
theorem object_members (h : Object num d ms (123 :: 34 :: t)) :
    ∃ m u, m ++ 125 :: u = 34 :: t ∧ Derives num (.members ms) d m := by
  obtain ⟨m, u, heq, hm, _⟩ := object_parts h
  exact ⟨m, u, heq, hm⟩

end Heads

section Values

variable {key : Bytes}

theorem members_derives (h : Derives num k d t) : ∀ ms, k = .members ms → ∀ m ∈ ms,
    Derives num .value d m.2 := by
  induction h with
  | @member d w n x y v w' left name before after h right =>
    intro ms hk m hm
    obtain rfl := Kind.members.inj hk
    obtain rfl := List.mem_singleton.mp hm
    exact h
  | @members d w n x y v w' m ms left name before after h right more _ ih =>
    intro ms' hk m' hm
    obtain rfl := Kind.members.inj hk
    rcases List.mem_cons.mp hm with rfl | hm
    · exact h
    · exact ih ms rfl m' hm
  | _ =>
    intro ms hk
    cases hk

/-- The value of a member is a value. -/
theorem lookup_derives (h : Object num d ms t) (hv : lookup key ms = some v) :
    Derives num .value d v := by
  obtain ⟨m, hm, rfl⟩ := Option.map_eq_some_iff.mp hv
  cases h with
  | empty _ _ _ => cases hm
  | full _ h _ => exact members_derives h ms rfl m (List.mem_of_find?_eq_some hm)

theorem object_length (h : Object num d ms t) : t.length ≠ 0 := by
  cases h with
  | empty _ _ _ => simp
  | full _ _ _ => simp

/-- A value begins with no blank, and with the letter n only if it is the word null. -/
theorem value_first (h : Derives (Number exponent) .value d v) :
    ∃ c u, v = c :: u ∧ isspace c = false ∧ (c = 110 → v = ascii "null") := by
  have hother : ∀ {c : UInt8} {u : Bytes}, isspace c = false → c ≠ 110 →
      ∃ c' u', c :: u = c' :: u' ∧ isspace c' = false ∧ (c' = 110 → c :: u = ascii "null") :=
    fun hc hn => ⟨_, _, rfl, hc, fun h => absurd h hn⟩
  cases h with
  | null => exact ⟨110, [117, 108, 108], by decide, by decide, fun _ => rfl⟩
  | true => exact ⟨116, [114, 117, 101], by decide, by decide, fun h => absurd h (by decide)⟩
  | false => exact ⟨102, [97, 108, 115, 101], by decide, by decide, fun h => absurd h (by decide)⟩
  | number h =>
    obtain ⟨c, u, rfl, hc⟩ := number_head h
    refine hother ?_ ?_
    · rcases hc with rfl | hc
      · decide
      · simp only [isDigit, Bool.and_eq_true, decide_eq_true_eq, UInt8.le_iff_toNat_le,
          UInt8.reduceToNat] at hc
        simp only [isspace, Bool.or_eq_false_iff, Bool.and_eq_false_iff, decide_eq_false_iff_not,
          UInt8.le_iff_toNat_le, UInt8.reduceToNat]
        refine ⟨?_, Or.inr (by omega)⟩
        rintro rfl
        exact absurd hc.1 (by decide)
    · rintro rfl
      exact absurd hc (by decide)
  | string _ => exact hother (by decide) (by decide)
  | emptyArray _ => exact hother (by decide) (by decide)
  | array _ => exact hother (by decide) (by decide)
  | emptyObject _ => exact hother (by decide) (by decide)
  | object _ => exact hother (by decide) (by decide)

theorem value_ne_nil (h : Derives (Number exponent) .value d v) : v ≠ [] := by
  obtain ⟨c, u, rfl, _⟩ := value_first h
  exact List.cons_ne_nil c u

theorem cString_value (h : Derives (Number exponent) .value d v) : cString v = v :=
  cString_plain fun hc => absurd (legible_derives h 0 hc) (by decide)

end Values

end Cyctron.Json.Build
