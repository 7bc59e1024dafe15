/- Cyctron/Json/Acceptor
   digest: A machine with a stack that reads bytes and accepts exactly the texts of the grammar. -/

import Cyctron.Json.Build

set_option autoImplicit false
set_option relaxedAutoImplicit false

namespace Cyctron.Json.Acceptor

open Cyctron.Base.CString Cyctron.Json.Text Cyctron.Json.Build

/-- What the machine waits for. The names of members are strings marked as keys; a word knows the
letters that are missing. -/
inductive Mode
  | value
  | open
  | brace
  | name
  | colon
  | after
  | string (key : Bool)
  | escape (key : Bool)
  | hex (key : Bool) (left : Nat)
  | word (rest : Bytes)
  | sign
  | zero
  | int
  | point
  | frac
  | mark
  | scale
  | exp
  deriving DecidableEq

/-- The mode, and for each bracket that is open whether it is the brace of an object. -/
structure State where
  mode : Mode
  stack : List Bool
  deriving DecidableEq

/-- The byte behind a value: a blank, a comma or the end of what is open. -/
def next (σ : List Bool) (c : UInt8) : Option State :=
  if isWs c then some ⟨.after, σ⟩
  else
    match σ with
    | [] => none
    | true :: σ => if c = 44 then some ⟨.name, true :: σ⟩ else
        if c = 125 then some ⟨.after, σ⟩ else none
    | false :: σ => if c = 44 then some ⟨.value, false :: σ⟩ else
        if c = 93 then some ⟨.after, σ⟩ else none

/-- The first byte of a value. -/
def first (σ : List Bool) (c : UInt8) : Option State :=
  if c = 34 then some ⟨.string false, σ⟩
  else if c = 123 then some ⟨.brace, true :: σ⟩
  else if c = 91 then some ⟨.open, false :: σ⟩
  else if c = 110 then some ⟨.word (ascii "ull"), σ⟩
  else if c = 116 then some ⟨.word (ascii "rue"), σ⟩
  else if c = 102 then some ⟨.word (ascii "alse"), σ⟩
  else if c = 45 then some ⟨.sign, σ⟩
  else if c = 48 then some ⟨.zero, σ⟩
  else if isDigit c then some ⟨.int, σ⟩
  else none

/-- The letter before an exponent, or the byte behind a number. -/
def scaled (σ : List Bool) (c : UInt8) : Option State :=
  if c = 101 ∨ c = 69 then some ⟨.mark, σ⟩ else next σ c

/-- The dot before a fraction, or what follows an integer. -/
def pointed (σ : List Bool) (c : UInt8) : Option State :=
  if c = 46 then some ⟨.point, σ⟩ else scaled σ c

def step (s : State) (c : UInt8) : Option State :=
  let σ := s.stack
  match s.mode with
  | .value => if isWs c then some s else first σ c
  | .open => if isWs c then some s else if c = 93 then some ⟨.after, σ.tail⟩ else first σ c
  | .brace => if isWs c then some s else if c = 125 then some ⟨.after, σ.tail⟩ else
      if c = 34 then some ⟨.string true, σ⟩ else none
  | .name => if isWs c then some s else if c = 34 then some ⟨.string true, σ⟩ else none
  | .colon => if isWs c then some s else
      if c = 58 ∧ σ.head? = some true then some ⟨.value, σ⟩ else none
  | .after => next σ c
  | .string key => if c = 34 then some ⟨if key then .colon else .after, σ⟩ else
      if c = 92 then some ⟨.escape key, σ⟩ else if c < 32 then none else some s
  | .escape key => if c = 117 then some ⟨.hex key 3, σ⟩ else
      if isShort c then some ⟨.string key, σ⟩ else none
  | .hex key left => if isHex c then
      some ⟨match left with | 0 => .string key | n + 1 => .hex key n, σ⟩ else none
  | .word rest => if rest.head? = some c then
      some ⟨if rest.tail = [] then .after else .word rest.tail, σ⟩ else none
  | .sign => if c = 48 then some ⟨.zero, σ⟩ else if isDigit c then some ⟨.int, σ⟩ else none
  | .zero => pointed σ c
  | .int => if isDigit c then some s else pointed σ c
  | .point => if isDigit c then some ⟨.frac, σ⟩ else none
  | .frac => if isDigit c then some s else scaled σ c
  | .mark => if c = 43 ∨ c = 45 then some ⟨.scale, σ⟩ else
      if isDigit c then some ⟨.exp, σ⟩ else none
  | .scale => if isDigit c then some ⟨.exp, σ⟩ else none
  | .exp => if isDigit c then some s else next σ c

def run : State → Bytes → Option State
  | s, [] => some s
  | s, c :: t => (step s c).bind fun s' => run s' t

/-- A value has ended, or a number that may end here. -/
def ended : Mode → Bool
  | .after | .zero | .int | .frac | .exp => true
  | _ => false

/-- The bytes lead to the end of a text. -/
def Accepts (s : State) (t : Bytes) : Prop := ∃ m, run s t = some ⟨m, []⟩ ∧ ended m = true

def start : State := ⟨.value, []⟩

/-- A value, elements or members, whatever the depth. -/
def Value (v : Bytes) : Prop := ∃ d, Derives AnyNumber .value d v

def Elements (e : Bytes) : Prop := ∃ d, Derives AnyNumber .elements d e

def Members (m : Bytes) : Prop := ∃ d ms, Derives AnyNumber (.members ms) d m

/-- What can follow a value when these brackets are open. -/
inductive Closes : List Bool → Bytes → Prop
  | done {w : Bytes} (blank : Blank w) : Closes [] w
  | bracket {σ : List Bool} {w t : Bytes} (blank : Blank w) (rest : Closes σ t) :
      Closes (false :: σ) (w ++ 93 :: t)
  | element {σ : List Bool} {w e t : Bytes} (blank : Blank w) (h : Elements e) (rest : Closes σ t) :
      Closes (false :: σ) (w ++ 44 :: (e ++ 93 :: t))
  | brace {σ : List Bool} {w t : Bytes} (blank : Blank w) (rest : Closes σ t) :
      Closes (true :: σ) (w ++ 125 :: t)
  | member {σ : List Bool} {w m t : Bytes} (blank : Blank w) (h : Members m) (rest : Closes σ t) :
      Closes (true :: σ) (w ++ 44 :: (m ++ 125 :: t))

def AllDigits (d : Bytes) : Prop := ∀ c ∈ d, isDigit c = true

/-- The parts of a number behind its digits. -/
def ExpPart (x : Bytes) : Prop := x = [] ∨ ∃ e s d, (e = 101 ∨ e = 69) ∧
  (s = [] ∨ s = [43] ∨ s = [45]) ∧ Digits d ∧ x = e :: (s ++ d)

def FracPart (f : Bytes) : Prop := f = [] ∨ ∃ d, Digits d ∧ f = 46 :: d

/-- What follows the key of a member. -/
def AfterKey (σ : List Bool) (t : Bytes) : Prop := ∃ x y v r, Blank x ∧ Blank y ∧ Value v ∧
  Closes (true :: σ) r ∧ t = x ++ 58 :: (y ++ (v ++ r))

/-- What follows a string, or its opening quote. -/
def AfterString (key : Bool) (σ : List Bool) (t : Bytes) : Prop :=
  if key then ∃ σ', σ = true :: σ' ∧ AfterKey σ' t else Closes σ t

def InString (key : Bool) (σ : List Bool) (t : Bytes) : Prop :=
  ∃ b r, Body b ∧ AfterString key σ r ∧ t = b ++ 34 :: r

/-- What the machine can read from a state on to the end of a text. -/
def Awaits (s : State) (t : Bytes) : Prop :=
  let σ := s.stack
  match s.mode with
  | .value => ∃ w v r, Blank w ∧ Value v ∧ Closes σ r ∧ t = w ++ (v ++ r)
  | .open => (∃ w r, Blank w ∧ Closes σ.tail r ∧ t = w ++ 93 :: r) ∨
      ∃ w v r, Blank w ∧ Value v ∧ Closes σ r ∧ t = w ++ (v ++ r)
  | .brace => (∃ w r, Blank w ∧ Closes σ.tail r ∧ t = w ++ 125 :: r) ∨
      ∃ m r, Members m ∧ Closes σ.tail r ∧ t = m ++ 125 :: r
  | .name => ∃ m r, Members m ∧ Closes σ.tail r ∧ t = m ++ 125 :: r
  | .colon => ∃ σ', σ = true :: σ' ∧ AfterKey σ' t
  | .after => Closes σ t
  | .string key => InString key σ t
  | .escape key => InString key σ (92 :: t)
  | .hex key left => ∃ h r, h.length = left + 1 ∧ (∀ c ∈ h, isHex c = true) ∧ InString key σ r ∧
      t = h ++ r
  | .word rest => ∃ r, Closes σ r ∧ t = rest ++ r
  | .sign => ∃ i f x r, (i = [48] ∨ (Digits i ∧ i.head? ≠ some 48)) ∧ FracPart f ∧ ExpPart x ∧
      Closes σ r ∧ t = i ++ (f ++ (x ++ r))
  | .zero => ∃ f x r, FracPart f ∧ ExpPart x ∧ Closes σ r ∧ t = f ++ (x ++ r)
  | .int => ∃ d f x r, AllDigits d ∧ FracPart f ∧ ExpPart x ∧ Closes σ r ∧ t = d ++ (f ++ (x ++ r))
  | .point => ∃ d x r, Digits d ∧ ExpPart x ∧ Closes σ r ∧ t = d ++ (x ++ r)
  | .frac => ∃ d x r, AllDigits d ∧ ExpPart x ∧ Closes σ r ∧ t = d ++ (x ++ r)
  | .mark => ∃ s d r, (s = [] ∨ s = [43] ∨ s = [45]) ∧ Digits d ∧ Closes σ r ∧ t = s ++ (d ++ r)
  | .scale => ∃ d r, Digits d ∧ Closes σ r ∧ t = d ++ r
  | .exp => ∃ d r, AllDigits d ∧ Closes σ r ∧ t = d ++ r

variable {s s' : State} {σ : List Bool} {m : Mode} {t r w v b e : Bytes} {c : UInt8} {key : Bool}
  {d d' : Nat} {k : Kind} {num exponent : Bytes → Prop}

section Runs

theorem run_append (s : State) (t r : Bytes) : run s (t ++ r) = (run s t).bind fun s' => run s' r := by
  induction t generalizing s with
  | nil => rfl
  | cons c t ih =>
    rw [List.cons_append, run, run]
    cases step s c with
    | none => rfl
    | some s' => exact ih s'

theorem accepts_cons : Accepts s (c :: t) ↔ ∃ s', step s c = some s' ∧ Accepts s' t := by
  unfold Accepts
  rw [run]
  constructor
  · rintro ⟨m, hrun, hm⟩
    obtain ⟨s', hstep, hrest⟩ := Option.bind_eq_some_iff.mp hrun
    exact ⟨s', hstep, m, hrest, hm⟩
  · rintro ⟨s', hstep, m, hrest, hm⟩
    exact ⟨m, by rw [hstep]; exact hrest, hm⟩

theorem accepts_append (h : run s t = some s') : Accepts s (t ++ r) ↔ Accepts s' r := by
  unfold Accepts
  rw [run_append, h]
  rfl

private theorem derives_mono (h : Derives num k d t) (hd : d ≤ d') : Derives num k d' t := by
  induction h generalizing d' with
  | null => exact .null
  | true => exact .true
  | false => exact .false
  | number h => exact .number h
  | string h => exact .string h
  | emptyArray blank =>
    obtain ⟨e, rfl⟩ := Nat.exists_eq_add_of_lt (Nat.lt_of_lt_of_le (Nat.lt_succ_self _) hd)
    exact .emptyArray blank
  | array _ ih =>
    cases d' with
    | zero => exact absurd hd (Nat.not_succ_le_zero _)
    | succ d' => exact .array (ih (Nat.le_of_succ_le_succ hd))
  | emptyObject blank =>
    obtain ⟨e, rfl⟩ := Nat.exists_eq_add_of_lt (Nat.lt_of_lt_of_le (Nat.lt_succ_self _) hd)
    exact .emptyObject blank
  | object _ ih =>
    cases d' with
    | zero => exact absurd hd (Nat.not_succ_le_zero _)
    | succ d' => exact .object (ih (Nat.le_of_succ_le_succ hd))
  | element left _ right ih => exact .element left (ih hd) right
  | elements left _ right _ ih ih' => exact .elements left (ih hd) right (ih' hd)
  | member left name before after _ right ih => exact .member left name before after (ih hd) right
  | members left name before after _ right _ ih ih' =>
    exact .members left name before after (ih hd) right (ih' hd)

end Runs

section Soundness

private theorem digits_none : AllDigits [] := fun _ h => absurd h List.not_mem_nil

private theorem blank_cons (hc : isWs c = true) (hw : Blank w) : Blank (c :: w) :=
  List.forall_mem_cons.mpr ⟨hc, hw⟩

private theorem closes_blank (hc : isWs c = true) (h : Closes σ t) : Closes σ (c :: t) := by
  cases h with
  | done blank => exact .done (blank_cons hc blank)
  | bracket blank rest => exact .bracket (blank_cons hc blank) rest
  | element blank h rest => exact .element (blank_cons hc blank) h rest
  | brace blank rest => exact .brace (blank_cons hc blank) rest
  | member blank h rest => exact .member (blank_cons hc blank) h rest

/-- A value in an array, with what closes it, makes elements. -/
private theorem elements_close (hw : Blank w) (hv : Value v) (h : Closes (false :: σ) r) :
    ∃ e t, Elements e ∧ Closes σ t ∧ w ++ (v ++ r) = e ++ 93 :: t := by
  obtain ⟨d, hv⟩ := hv
  cases h with
  | @bracket _ w' t blank rest =>
    exact ⟨w ++ (v ++ w'), t, ⟨d, .element hw hv blank⟩, rest, by simp⟩
  | @element _ w' e t blank h rest =>
    obtain ⟨d', he⟩ := h
    have hall := Derives.elements hw (derives_mono hv (Nat.le_max_left d d')) blank
      (derives_mono he (Nat.le_max_right d d'))
    exact ⟨_, t, ⟨_, hall⟩, rest, by simp⟩

/-- A key and a value in an object, with what closes it, make members. -/
private theorem members_close {n x y : Bytes} (hw : Blank w) (hn : Body n) (hx : Blank x)
    (hy : Blank y)
    (hv : Value v) (h : Closes (true :: σ) r) : ∃ m t, Members m ∧ Closes σ t ∧
      w ++ 34 :: (n ++ 34 :: (x ++ 58 :: (y ++ (v ++ r)))) = m ++ 125 :: t := by
  obtain ⟨d, hv⟩ := hv
  cases h with
  | @brace _ w' t blank rest =>
    exact ⟨_, t, ⟨d, _, .member hw hn hx hy hv blank⟩, rest, by simp⟩
  | @member _ w' m t blank h rest =>
    obtain ⟨d', ms, hm⟩ := h
    have hall := Derives.members hw hn hx hy (derives_mono hv (Nat.le_max_left d d')) blank
      (derives_mono hm (Nat.le_max_right d d'))
    exact ⟨_, t, ⟨_, _, hall⟩, rest, by simp⟩

private theorem next_awaits (hstep : next σ c = some s') (h : Awaits s' t) : Closes σ (c :: t) := by
  unfold next at hstep
  by_cases hc : isWs c = true
  · rw [if_pos hc] at hstep
    obtain rfl := Option.some.inj hstep
    exact closes_blank hc h
  rw [if_neg hc] at hstep
  cases σ with
  | nil => cases hstep
  | cons q σ =>
    cases q with
    | true =>
      dsimp only at hstep
      split at hstep
      · rename_i hcomma
        obtain rfl := Option.some.inj hstep
        obtain ⟨m, r, hm, hr, rfl⟩ := h
        rw [hcomma]
        exact .member blank_nil hm hr
      · split at hstep
        · rename_i hbrace
          obtain rfl := Option.some.inj hstep
          rw [hbrace]
          exact .brace blank_nil h
        · cases hstep
    | false =>
      dsimp only at hstep
      split at hstep
      · rename_i hcomma
        obtain rfl := Option.some.inj hstep
        obtain ⟨w, v, r, hw, hv, hr, rfl⟩ := h
        obtain ⟨e, t, he, ht, heq⟩ := elements_close hw hv hr
        rw [hcomma, heq]
        exact .element blank_nil he ht
      · split at hstep
        · rename_i hbracket
          obtain rfl := Option.some.inj hstep
          rw [hbracket]
          exact .bracket blank_nil h
        · cases hstep

private theorem scaled_awaits (hstep : scaled σ c = some s') (h : Awaits s' t) :
    ∃ x r, ExpPart x ∧ Closes σ r ∧ c :: t = x ++ r := by
  rw [scaled] at hstep
  split at hstep
  · rename_i he
    obtain rfl := Option.some.inj hstep
    obtain ⟨s, d, r, hs, hd, hr, rfl⟩ := h
    exact ⟨c :: (s ++ d), r, Or.inr ⟨c, s, d, he, hs, hd, rfl⟩, hr, by simp⟩
  · exact ⟨[], c :: t, Or.inl rfl, next_awaits hstep h, rfl⟩

private theorem pointed_awaits (hstep : pointed σ c = some s') (h : Awaits s' t) :
    ∃ f x r, FracPart f ∧ ExpPart x ∧ Closes σ r ∧ c :: t = f ++ (x ++ r) := by
  rw [pointed] at hstep
  split at hstep
  · rename_i hc
    obtain rfl := Option.some.inj hstep
    obtain ⟨d, x, r, hd, hx, hr, rfl⟩ := h
    exact ⟨46 :: d, x, r, Or.inr ⟨d, hd, rfl⟩, hx, hr, by rw [hc]; simp⟩
  · obtain ⟨x, r, hx, hr, heq⟩ := scaled_awaits hstep h
    exact ⟨[], x, r, Or.inl rfl, hx, hr, heq⟩

/-- A number with its parts. -/
private theorem value_number {sign i f x : Bytes} (hsign : sign = [] ∨ sign = [45])
    (hi : i = [48] ∨ (Digits i ∧ i.head? ≠ some 48)) (hf : FracPart f) (hx : ExpPart x) :
    Value (sign ++ (i ++ (f ++ x))) := by
  refine ⟨0, .number (.mk hsign hi hf ?_)⟩
  rcases hx with rfl | ⟨e, s, d, he, hs, hd, rfl⟩
  · exact Or.inl rfl
  · exact Or.inr ⟨e, s, d, he, hs, hd, trivial, rfl⟩

private theorem first_awaits (hstep : first σ c = some s') (h : Awaits s' t) :
    ∃ v r, Value v ∧ Closes σ r ∧ c :: t = v ++ r := by
  rw [first] at hstep
  split at hstep
  · rename_i hc
    obtain rfl := Option.some.inj hstep
    obtain ⟨b, r, hb, hr, rfl⟩ := h
    exact ⟨quoted b, r, ⟨0, .string hb⟩, hr, by rw [hc]; simp [quoted]⟩
  split at hstep
  · rename_i hc
    obtain rfl := Option.some.inj hstep
    rcases h with ⟨w, r, hw, hr, rfl⟩ | ⟨m, r, ⟨d, ms, hm⟩, hr, rfl⟩
    · exact ⟨123 :: (w ++ [125]), r, ⟨1, .emptyObject hw⟩, hr, by rw [hc]; simp⟩
    · exact ⟨123 :: (m ++ [125]), r, ⟨d + 1, .object hm⟩, hr, by rw [hc]; simp⟩
  split at hstep
  · rename_i hc
    obtain rfl := Option.some.inj hstep
    rcases h with ⟨w, r, hw, hr, rfl⟩ | ⟨w, v, r, hw, hv, hr, rfl⟩
    · exact ⟨91 :: (w ++ [93]), r, ⟨1, .emptyArray hw⟩, hr, by rw [hc]; simp⟩
    · obtain ⟨e, t, ⟨d, he⟩, ht, heq⟩ := elements_close hw hv hr
      exact ⟨91 :: (e ++ [93]), t, ⟨d + 1, .array he⟩, ht, by rw [hc, heq]; simp⟩
  split at hstep
  · rename_i hc
    obtain rfl := Option.some.inj hstep
    obtain ⟨r, hr, rfl⟩ := h
    exact ⟨ascii "null", r, ⟨0, .null⟩, hr, by rw [hc]; rfl⟩
  split at hstep
  · rename_i hc
    obtain rfl := Option.some.inj hstep
    obtain ⟨r, hr, rfl⟩ := h
    exact ⟨ascii "true", r, ⟨0, .true⟩, hr, by rw [hc]; rfl⟩
  split at hstep
  · rename_i hc
    obtain rfl := Option.some.inj hstep
    obtain ⟨r, hr, rfl⟩ := h
    exact ⟨ascii "false", r, ⟨0, .false⟩, hr, by rw [hc]; rfl⟩
  split at hstep
  · rename_i hc
    obtain rfl := Option.some.inj hstep
    obtain ⟨i, f, x, r, hi, hf, hx, hr, rfl⟩ := h
    exact ⟨_, r, value_number (Or.inr rfl) hi hf hx, hr, by rw [hc]; simp⟩
  split at hstep
  · rename_i hc
    obtain rfl := Option.some.inj hstep
    obtain ⟨f, x, r, hf, hx, hr, rfl⟩ := h
    exact ⟨_, r, value_number (Or.inl rfl) (Or.inl rfl) hf hx, hr, by rw [hc]; simp⟩
  split at hstep
  · rename_i hzero hdigit
    obtain rfl := Option.some.inj hstep
    obtain ⟨d, f, x, r, hd, hf, hx, hr, rfl⟩ := h
    have hi : Digits (c :: d) ∧ (c :: d).head? ≠ some 48 :=
      ⟨⟨List.cons_ne_nil c d, List.forall_mem_cons.mpr ⟨hdigit, hd⟩⟩,
        fun heq => hzero (Option.some.inj heq)⟩
    exact ⟨_, r, value_number (Or.inl rfl) (Or.inr hi) hf hx, hr, by simp⟩
  · cases hstep

/-- A blank in front of what a value, elements or members begin with. -/
private theorem members_blank (hc : isWs c = true) {m : Bytes} (h : Members m) : Members (c :: m) := by
  obtain ⟨d, ms, h⟩ := h
  cases h with
  | member left name before after hv right =>
    exact ⟨d, _, .member (blank_cons hc left) name before after hv right⟩
  | members left name before after hv right rest =>
    exact ⟨d, _, .members (blank_cons hc left) name before after hv right rest⟩

/-- A key that is begun makes members. -/
private theorem key_members (h : InString true σ t) :
    ∃ m r, Members m ∧ Closes σ.tail r ∧ 34 :: t = m ++ 125 :: r := by
  obtain ⟨b, u, hb, ⟨σ', rfl, x, y, v, r, hx, hy, hv, hr, rfl⟩, rfl⟩ := h
  exact members_close blank_nil hb hx hy hv hr

/-- Each byte keeps to what the grammar can go on with. -/
private theorem step_awaits (hstep : step s c = some s') (h : Awaits s' t) : Awaits s (c :: t) := by
  obtain ⟨m, σ⟩ := s
  unfold step at hstep
  cases m with
  | value =>
    dsimp only at hstep
    split at hstep
    · rename_i hc
      obtain rfl := Option.some.inj hstep
      obtain ⟨w, v, r, hw, hv, hr, rfl⟩ := h
      exact ⟨c :: w, v, r, blank_cons hc hw, hv, hr, rfl⟩
    · obtain ⟨v, r, hv, hr, heq⟩ := first_awaits hstep h
      exact ⟨[], v, r, blank_nil, hv, hr, heq⟩
  | «open» =>
    dsimp only at hstep
    split at hstep
    · rename_i hc
      obtain rfl := Option.some.inj hstep
      rcases h with ⟨w, r, hw, hr, rfl⟩ | ⟨w, v, r, hw, hv, hr, rfl⟩
      · exact Or.inl ⟨c :: w, r, blank_cons hc hw, hr, rfl⟩
      · exact Or.inr ⟨c :: w, v, r, blank_cons hc hw, hv, hr, rfl⟩
    split at hstep
    · rename_i hc
      obtain rfl := Option.some.inj hstep
      exact Or.inl ⟨[], t, blank_nil, h, by rw [hc]; rfl⟩
    · obtain ⟨v, r, hv, hr, heq⟩ := first_awaits hstep h
      exact Or.inr ⟨[], v, r, blank_nil, hv, hr, heq⟩
  | brace =>
    dsimp only at hstep
    split at hstep
    · rename_i hc
      obtain rfl := Option.some.inj hstep
      rcases h with ⟨w, r, hw, hr, rfl⟩ | ⟨m, r, hm, hr, rfl⟩
      · exact Or.inl ⟨c :: w, r, blank_cons hc hw, hr, rfl⟩
      · exact Or.inr ⟨c :: m, r, members_blank hc hm, hr, rfl⟩
    split at hstep
    · rename_i hc
      obtain rfl := Option.some.inj hstep
      exact Or.inl ⟨[], t, blank_nil, h, by rw [hc]; rfl⟩
    split at hstep
    · rename_i hc
      obtain rfl := Option.some.inj hstep
      rw [hc]
      exact Or.inr (key_members h)
    · cases hstep
  | name =>
    dsimp only at hstep
    split at hstep
    · rename_i hc
      obtain rfl := Option.some.inj hstep
      obtain ⟨m, r, hm, hr, rfl⟩ := h
      exact ⟨c :: m, r, members_blank hc hm, hr, rfl⟩
    split at hstep
    · rename_i hc
      obtain rfl := Option.some.inj hstep
      rw [hc]
      exact key_members h
    · cases hstep
  | colon =>
    dsimp only at hstep
    split at hstep
    · rename_i hc
      obtain rfl := Option.some.inj hstep
      obtain ⟨σ', hσ, x, y, v, r, hx, hy, hv, hr, rfl⟩ := h
      exact ⟨σ', hσ, c :: x, y, v, r, blank_cons hc hx, hy, hv, hr, rfl⟩
    split at hstep
    · rename_i hc
      obtain rfl := Option.some.inj hstep
      obtain ⟨rfl, hσ⟩ := hc
      obtain ⟨σ', rfl⟩ := List.head?_eq_some_iff.mp hσ
      obtain ⟨y, v, r, hy, hv, hr, rfl⟩ := h
      exact ⟨σ', rfl, [], y, v, r, blank_nil, hy, hv, hr, rfl⟩
    · cases hstep
  | after => exact next_awaits hstep h
  | string key =>
    dsimp only at hstep
    split at hstep
    · rename_i hc
      obtain rfl := Option.some.inj hstep
      rw [hc]
      cases key with
      | false => exact ⟨[], t, .nil, h, rfl⟩
      | true => exact ⟨[], t, .nil, h, rfl⟩
    split at hstep
    · rename_i hc
      obtain rfl := Option.some.inj hstep
      rw [hc]
      exact h
    split at hstep
    · cases hstep
    · rename_i hquote hback hlow
      obtain rfl := Option.some.inj hstep
      obtain ⟨b, r, hb, hr, rfl⟩ := h
      exact ⟨c :: b, r, .plain (UInt8.not_lt.mp hlow) hquote hback hb, hr, rfl⟩
  | escape key =>
    dsimp only at hstep
    split at hstep
    · rename_i hc
      obtain rfl := Option.some.inj hstep
      obtain ⟨h, r, hfour, hhex, ⟨b, r, hb, hr, rfl⟩, rfl⟩ := h
      exact ⟨92 :: 117 :: (h ++ b), r, .unicode hfour hhex hb, hr, by rw [hc]; simp⟩
    split at hstep
    · rename_i hletter
      obtain rfl := Option.some.inj hstep
      obtain ⟨b, r, hb, hr, rfl⟩ := h
      exact ⟨92 :: c :: b, r, .short hletter hb, hr, rfl⟩
    · cases hstep
  | hex key left =>
    dsimp only at hstep
    split at hstep
    · rename_i hc
      obtain rfl := Option.some.inj hstep
      cases left with
      | zero => exact ⟨[c], t, rfl, List.forall_mem_singleton.mpr hc, h, rfl⟩
      | succ n =>
        obtain ⟨x, r, hlength, hhex, hr, rfl⟩ := h
        exact ⟨c :: x, r, by rw [List.length_cons, hlength], List.forall_mem_cons.mpr ⟨hc, hhex⟩, hr,
          rfl⟩
    · cases hstep
  | word rest =>
    dsimp only at hstep
    split at hstep
    · rename_i hc
      obtain rfl := Option.some.inj hstep
      obtain ⟨u, rfl⟩ := List.head?_eq_some_iff.mp hc
      rw [List.tail_cons] at h
      split at h
      · rename_i hu
        exact ⟨t, h, by rw [hu]; rfl⟩
      · obtain ⟨r, hr, rfl⟩ := h
        exact ⟨r, hr, rfl⟩
    · cases hstep
  | sign =>
    dsimp only at hstep
    split at hstep
    · rename_i hc
      obtain rfl := Option.some.inj hstep
      obtain ⟨f, x, r, hf, hx, hr, rfl⟩ := h
      exact ⟨[48], f, x, r, Or.inl rfl, hf, hx, hr, by rw [hc]; rfl⟩
    split at hstep
    · rename_i hzero hdigit
      obtain rfl := Option.some.inj hstep
      obtain ⟨d, f, x, r, hd, hf, hx, hr, rfl⟩ := h
      exact ⟨c :: d, f, x, r, Or.inr ⟨⟨List.cons_ne_nil c d, List.forall_mem_cons.mpr ⟨hdigit, hd⟩⟩,
        fun heq => hzero (Option.some.inj heq)⟩, hf, hx, hr, rfl⟩
    · cases hstep
  | zero => exact pointed_awaits hstep h
  | int =>
    dsimp only at hstep
    split at hstep
    · rename_i hdigit
      obtain rfl := Option.some.inj hstep
      obtain ⟨d, f, x, r, hd, hf, hx, hr, rfl⟩ := h
      exact ⟨c :: d, f, x, r, List.forall_mem_cons.mpr ⟨hdigit, hd⟩, hf, hx, hr, rfl⟩
    · obtain ⟨f, x, r, hf, hx, hr, heq⟩ := pointed_awaits hstep h
      exact ⟨[], f, x, r, digits_none, hf, hx, hr, heq⟩
  | point =>
    dsimp only at hstep
    split at hstep
    · rename_i hdigit
      obtain rfl := Option.some.inj hstep
      obtain ⟨d, x, r, hd, hx, hr, rfl⟩ := h
      exact ⟨c :: d, x, r, ⟨List.cons_ne_nil c d, List.forall_mem_cons.mpr ⟨hdigit, hd⟩⟩, hx, hr, rfl⟩
    · cases hstep
  | frac =>
    dsimp only at hstep
    split at hstep
    · rename_i hdigit
      obtain rfl := Option.some.inj hstep
      obtain ⟨d, x, r, hd, hx, hr, rfl⟩ := h
      exact ⟨c :: d, x, r, List.forall_mem_cons.mpr ⟨hdigit, hd⟩, hx, hr, rfl⟩
    · obtain ⟨x, r, hx, hr, heq⟩ := scaled_awaits hstep h
      exact ⟨[], x, r, digits_none, hx, hr, heq⟩
  | mark =>
    dsimp only at hstep
    split at hstep
    · rename_i hc
      obtain rfl := Option.some.inj hstep
      obtain ⟨d, r, hd, hr, rfl⟩ := h
      refine ⟨[c], d, r, ?_, hd, hr, rfl⟩
      rcases hc with rfl | rfl
      · exact Or.inr (Or.inl rfl)
      · exact Or.inr (Or.inr rfl)
    split at hstep
    · rename_i hdigit
      obtain rfl := Option.some.inj hstep
      obtain ⟨d, r, hd, hr, rfl⟩ := h
      exact ⟨[], c :: d, r, Or.inl rfl,
        ⟨List.cons_ne_nil c d, List.forall_mem_cons.mpr ⟨hdigit, hd⟩⟩, hr, rfl⟩
    · cases hstep
  | scale =>
    dsimp only at hstep
    split at hstep
    · rename_i hdigit
      obtain rfl := Option.some.inj hstep
      obtain ⟨d, r, hd, hr, rfl⟩ := h
      exact ⟨c :: d, r, ⟨List.cons_ne_nil c d, List.forall_mem_cons.mpr ⟨hdigit, hd⟩⟩, hr, rfl⟩
    · cases hstep
  | exp =>
    dsimp only at hstep
    split at hstep
    · rename_i hdigit
      obtain rfl := Option.some.inj hstep
      obtain ⟨d, r, hd, hr, rfl⟩ := h
      exact ⟨c :: d, r, List.forall_mem_cons.mpr ⟨hdigit, hd⟩, hr, rfl⟩
    · exact ⟨[], c :: t, digits_none, next_awaits hstep h, rfl⟩

private theorem ended_awaits (h : ended m = true) : Awaits ⟨m, []⟩ [] := by
  have hdone : Closes [] [] := .done blank_nil
  cases m with
  | after => exact hdone
  | zero => exact ⟨[], [], [], Or.inl rfl, Or.inl rfl, hdone, rfl⟩
  | int => exact ⟨[], [], [], [], digits_none, Or.inl rfl, Or.inl rfl, hdone, rfl⟩
  | frac => exact ⟨[], [], [], digits_none, Or.inl rfl, hdone, rfl⟩
  | exp => exact ⟨[], [], digits_none, hdone, rfl⟩
  | _ => cases h

/-- What is accepted is what the grammar can go on with. -/
private theorem accepts_awaits (h : Accepts s t) : Awaits s t := by
  induction t generalizing s with
  | nil =>
    obtain ⟨m, hrun, hm⟩ := h
    obtain rfl := Option.some.inj hrun
    exact ended_awaits hm
  | cons c t ih =>
    obtain ⟨s', hstep, hrest⟩ := accepts_cons.mp h
    exact step_awaits hstep (ih hrest)

end Soundness

section Completeness

/-- The modes that pass over blanks. -/
def waits : Mode → Bool
  | .value | .open | .brace | .name | .colon | .after => true
  | _ => false

private theorem run_blank (hm : waits m = true) (hw : Blank w) : run ⟨m, σ⟩ w = some ⟨m, σ⟩ := by
  induction w with
  | nil => rfl
  | cons c w ih =>
    obtain ⟨hc, hw⟩ := List.forall_mem_cons.mp hw
    have hstep : step ⟨m, σ⟩ c = some ⟨m, σ⟩ := by
      cases m with
      | value => exact if_pos hc
      | «open» => exact if_pos hc
      | brace => exact if_pos hc
      | name => exact if_pos hc
      | colon => exact if_pos hc
      | after =>
        change next σ c = _
        unfold next
        exact if_pos hc
      | _ => cases hm
    rw [run, hstep]
    exact ih hw

theorem run_cons (s' : State) (h : step s c = some s') : run s (c :: t) = run s' t := by
  rw [run, h]
  rfl

theorem run_then (h : run s t = some s') : run s (t ++ r) = run s' r := by
  rw [run_append, h]
  rfl

private theorem run_hex {h : Bytes} {n : Nat} (hlength : h.length = n + 1)
    (hhex : ∀ c ∈ h, isHex c = true) :
    run ⟨.hex key n, σ⟩ h = some ⟨.string key, σ⟩ := by
  induction n generalizing h with
  | zero =>
    obtain ⟨c, rfl⟩ := List.length_eq_one_iff.mp hlength
    have hstep : step ⟨.hex key 0, σ⟩ c = some ⟨.string key, σ⟩ := if_pos (hhex c List.mem_cons_self)
    rw [run_cons _ hstep]
    rfl
  | succ n ih =>
    cases h with
    | nil => cases hlength
    | cons c h =>
      obtain ⟨hc, hh⟩ := List.forall_mem_cons.mp hhex
      have hstep : step ⟨.hex key (n + 1), σ⟩ c = some ⟨.hex key n, σ⟩ := if_pos hc
      rw [run_cons _ hstep]
      exact ih (Nat.succ.inj hlength) hh

theorem run_body (h : Body b) : run ⟨.string key, σ⟩ b = some ⟨.string key, σ⟩ := by
  induction h with
  | nil => rfl
  | plain printable quote backslash _ ih =>
    rw [run_cons ⟨.string key, σ⟩]
    · exact ih
    · change (if _ then _ else _) = _
      rw [if_neg quote, if_neg backslash, if_neg (UInt8.not_lt.mpr printable)]
  | short letter _ ih =>
    rw [run_cons ⟨.escape key, σ⟩ rfl, run_cons ⟨.string key, σ⟩]
    · exact ih
    · change (if _ then _ else _) = _
      rw [if_neg, if_pos letter]
      rintro rfl
      exact absurd letter (by decide)
  | unicode four hex _ ih =>
    rw [run_cons ⟨.escape key, σ⟩ rfl, run_cons ⟨.hex key 3, σ⟩ rfl,
      run_then (run_hex four hex)]
    exact ih

theorem run_quoted (h : Body b) : run ⟨.string key, σ⟩ (b ++ 34 :: r) =
    run ⟨if key then .colon else .after, σ⟩ r := by
  rw [run_then (run_body h)]
  exact run_cons _ rfl

/-- A value has ended, whatever mode is left. -/
def Done (σ : List Bool) (o : Option State) : Prop := ∃ m, o = some ⟨m, σ⟩ ∧ ended m = true

theorem done_after : Done σ (some ⟨.after, σ⟩) := ⟨.after, rfl, rfl⟩

/-- The bytes that a number can go on with. -/
def goesOn (c : UInt8) : Bool := isDigit c || c = 46 || c = 101 || c = 69

theorem step_ended (hm : ended m = true) (hc : goesOn c = false) : step ⟨m, σ⟩ c = next σ c := by
  have hno : isDigit c = false ∧ c ≠ 46 ∧ ¬(c = 101 ∨ c = 69) := by
    simp only [goesOn, Bool.or_eq_false_iff, decide_eq_false_iff_not] at hc
    exact ⟨hc.1.1.1, hc.1.1.2, not_or.mpr ⟨hc.1.2, hc.2⟩⟩
  cases m with
  | after => rfl
  | zero =>
    change pointed σ c = _
    rw [pointed, if_neg hno.2.1, scaled, if_neg hno.2.2]
  | int =>
    change (if _ then _ else pointed σ c) = _
    rw [hno.1, if_neg Bool.false_ne_true, pointed, if_neg hno.2.1, scaled, if_neg hno.2.2]
  | frac =>
    change (if _ then _ else scaled σ c) = _
    rw [hno.1, if_neg Bool.false_ne_true, scaled, if_neg hno.2.2]
  | exp =>
    change (if _ then _ else next σ c) = _
    rw [hno.1, if_neg Bool.false_ne_true]
  | _ => cases hm

private theorem goesOn_blank (hc : isWs c = true) : goesOn c = false := by
  simp only [isWs, Bool.or_eq_true, decide_eq_true_eq] at hc
  rcases hc with ((rfl | rfl) | rfl) | rfl <;> decide

theorem Done.step (h : Done σ (run s t)) (hc : goesOn c = false) :
    run s (t ++ c :: r) = (next σ c).bind fun s' => run s' r := by
  obtain ⟨m, hrun, hm⟩ := h
  rw [run_then hrun, run, step_ended hm hc]

theorem Done.blank (h : Done σ (run s t)) (hw : Blank w) : Done σ (run s (t ++ w)) := by
  cases w with
  | nil => rwa [List.append_nil]
  | cons c w =>
    obtain ⟨hc, hw⟩ := List.forall_mem_cons.mp hw
    have hnext : next σ c = some ⟨.after, σ⟩ := by
      unfold next
      exact if_pos hc
    rw [h.step (goesOn_blank hc), hnext, Option.bind_some, run_blank rfl hw]
    exact done_after

/-- The modes that stay over digits. -/
private theorem run_digits (hm : m = .int ∨ m = .frac ∨ m = .exp) (hd : AllDigits t) :
    run ⟨m, σ⟩ t = some ⟨m, σ⟩ := by
  induction t with
  | nil => rfl
  | cons c t ih =>
    obtain ⟨hc, ht⟩ := List.forall_mem_cons.mp hd
    have hstep : step ⟨m, σ⟩ c = some ⟨m, σ⟩ := by
      rcases hm with rfl | rfl | rfl <;> exact if_pos hc
    rw [run_cons _ hstep]
    exact ih ht

/-- Digits that begin with a first one. -/
private theorem run_first_digits (hstep : ∀ c, isDigit c = true → step s c = some ⟨m, σ⟩)
    (hm : m = .int ∨ m = .frac ∨ m = .exp) (hd : Digits t) : run s t = some ⟨m, σ⟩ := by
  obtain ⟨hne, hall⟩ := hd
  obtain ⟨c, t, rfl⟩ := List.exists_cons_of_ne_nil hne
  obtain ⟨hc, ht⟩ := List.forall_mem_cons.mp hall
  rw [run_cons _ (hstep c hc)]
  exact run_digits hm ht

private theorem digit_no_sign (hc : isDigit c = true) : ¬(c = 43 ∨ c = 45) := by
  rintro (rfl | rfl) <;> exact absurd hc (by decide)

private theorem run_scale (hm : m = .zero ∨ m = .int ∨ m = .frac) {x : Bytes} (hx : ExpPart x) :
    Done σ (run ⟨m, σ⟩ x) := by
  rcases hx with rfl | ⟨e, s, d, he, hs, hd, rfl⟩
  · exact ⟨m, rfl, by rcases hm with rfl | rfl | rfl <;> rfl⟩
  · have hletter : step ⟨m, σ⟩ e = some ⟨.mark, σ⟩ := by
      rcases hm with rfl | rfl | rfl <;> rcases he with rfl | rfl <;> rfl
    have hscale : run ⟨.scale, σ⟩ d = some ⟨.exp, σ⟩ :=
      run_first_digits (fun c hc => if_pos hc) (Or.inr (Or.inr rfl)) hd
    have hmark : run ⟨.mark, σ⟩ d = some ⟨.exp, σ⟩ :=
      run_first_digits (fun c hc => by
        change (if _ then _ else _) = _
        rw [if_neg (digit_no_sign hc), if_pos hc]) (Or.inr (Or.inr rfl)) hd
    refine ⟨.exp, ?_, rfl⟩
    rw [run_cons _ hletter]
    rcases hs with rfl | rfl | rfl
    · exact hmark
    · exact (run_cons _ rfl).trans hscale
    · exact (run_cons _ rfl).trans hscale

private theorem run_fraction (hm : m = .zero ∨ m = .int) {f x : Bytes} (hf : FracPart f)
    (hx : ExpPart x) :
    Done σ (run ⟨m, σ⟩ (f ++ x)) := by
  rcases hf with rfl | ⟨d, hd, rfl⟩
  · refine run_scale ?_ hx
    rcases hm with rfl | rfl
    · exact Or.inl rfl
    · exact Or.inr (Or.inl rfl)
  · have hdot : step ⟨m, σ⟩ 46 = some ⟨.point, σ⟩ := by
      rcases hm with rfl | rfl <;> rfl
    have hdigits : run ⟨.point, σ⟩ d = some ⟨.frac, σ⟩ :=
      run_first_digits (fun c hc => if_pos hc) (Or.inr (Or.inl rfl)) hd
    rw [List.cons_append, run_cons _ hdot, run_then hdigits]
    exact run_scale (Or.inr (Or.inr rfl)) hx

/-- The first digits of a number, behind its sign or without one. -/
private theorem run_integer (hzero : step s 48 = some ⟨.zero, σ⟩)
    (hdigit : ∀ c, isDigit c = true → c ≠ 48 → step s c = some ⟨.int, σ⟩) {i f x : Bytes}
    (hi : i = [48] ∨ (Digits i ∧ i.head? ≠ some 48)) (hf : FracPart f) (hx : ExpPart x) :
    Done σ (run s (i ++ (f ++ x))) := by
  rcases hi with rfl | ⟨⟨hne, hall⟩, hhead⟩
  · rw [List.singleton_append, run_cons _ hzero]
    exact run_fraction (Or.inl rfl) hf hx
  · obtain ⟨c, d, rfl⟩ := List.exists_cons_of_ne_nil hne
    obtain ⟨hc, hd⟩ := List.forall_mem_cons.mp hall
    have hstep := hdigit c hc fun h => hhead (congrArg some h)
    rw [List.cons_append, run_cons _ hstep, run_then (run_digits (Or.inl rfl) hd)]
    exact run_fraction (Or.inr rfl) hf hx

private theorem first_digit (hc : isDigit c = true) (hne : c ≠ 48) :
    step ⟨.value, σ⟩ c = some ⟨.int, σ⟩ := by
  have hws : isWs c = false := by
    cases hw : isWs c with
    | false => rfl
    | true =>
      simp only [isWs, Bool.or_eq_true, decide_eq_true_eq] at hw
      rcases hw with ((rfl | rfl) | rfl) | rfl <;> exact absurd hc (by decide)
  have hother : ∀ e : UInt8, isDigit e = false → c ≠ e := by
    rintro e he rfl
    rw [hc] at he
    cases he
  change (if isWs c = true then _ else first σ c) = _
  rw [hws, if_neg Bool.false_ne_true, first, if_neg (hother 34 (by decide)),
    if_neg (hother 123 (by decide)), if_neg (hother 91 (by decide)), if_neg (hother 110 (by decide)),
    if_neg (hother 116 (by decide)), if_neg (hother 102 (by decide)), if_neg (hother 45 (by decide)),
    if_neg hne, if_pos hc]

theorem run_number (h : Number exponent t) : Done σ (run ⟨.value, σ⟩ t) := by
  cases h with
  | @mk sign i f x signed digits fraction scale =>
    have hx : ExpPart x := by
      rcases scale with rfl | ⟨e, s, d, he, hs, hd, _, rfl⟩
      · exact Or.inl rfl
      · exact Or.inr ⟨e, s, d, he, hs, hd, rfl⟩
    rcases signed with rfl | rfl
    · rw [List.nil_append]
      exact run_integer rfl (fun c hc hne => first_digit hc hne) digits fraction hx
    · rw [List.singleton_append, run_cons ⟨.sign, σ⟩ rfl]
      refine run_integer rfl (fun c hc hne => ?_) digits fraction hx
      change (if _ then _ else _) = _
      rw [if_neg hne, if_pos hc]

private theorem ws_space (hc : isspace c = false) : isWs c = false := by
  cases hw : isWs c with
  | false => rfl
  | true =>
    simp only [isWs, Bool.or_eq_true, decide_eq_true_eq] at hw
    rcases hw with ((rfl | rfl) | rfl) | rfl <;> cases hc

/-- In an array, a value may stand where the array could end. -/
private theorem run_open (h : Derives (Number exponent) .value d v)
    (hdone : Done σ (run ⟨.value, σ⟩ v)) :
    run ⟨.open, σ⟩ v = run ⟨.value, σ⟩ v := by
  obtain ⟨c, u, rfl, hspace, _⟩ := value_first h
  have hws := ws_space hspace
  have hvalue : step ⟨.value, σ⟩ c = first σ c := by
    change (if isWs c = true then _ else first σ c) = _
    rw [hws, if_neg Bool.false_ne_true]
  have hend : c ≠ 93 := by
    rintro rfl
    obtain ⟨m, hrun, _⟩ := hdone
    rw [run, hvalue] at hrun
    cases hrun
  have hopen : step ⟨.open, σ⟩ c = first σ c := by
    change (if isWs c = true then _ else if c = 93 then _ else first σ c) = _
    rw [hws, if_neg Bool.false_ne_true, if_neg hend]
  rw [run, run, hvalue, hopen]

/-- What each kind of text does to the machine. -/
def Reads (k : Kind) (t : Bytes) : Prop :=
  match k with
  | .value => ∀ σ, Done σ (run ⟨.value, σ⟩ t)
  | .elements => ∀ σ, Done (false :: σ) (run ⟨.value, false :: σ⟩ t) ∧
      Done (false :: σ) (run ⟨.open, false :: σ⟩ t)
  | .members _ => ∀ σ m, m = .brace ∨ m = .name → Done (true :: σ) (run ⟨m, true :: σ⟩ t)

/-- A member up to its value. -/
private theorem run_key {n x y : Bytes} (hm : m = .brace ∨ m = .name) (hw : Blank w) (hn : Body n)
    (hx : Blank x) (hy : Blank y) :
    run ⟨m, true :: σ⟩ (w ++ 34 :: (n ++ 34 :: (x ++ 58 :: (y ++ r)))) = run ⟨.value, true :: σ⟩ r := by
  have hquote : step ⟨m, true :: σ⟩ 34 = some ⟨.string true, true :: σ⟩ := by
    rcases hm with rfl | rfl <;> rfl
  have hwaits : waits m = true := by
    rcases hm with rfl | rfl <;> rfl
  rw [run_then (run_blank hwaits hw), run_cons _ hquote, run_quoted hn]
  change run ⟨.colon, true :: σ⟩ _ = _
  rw [run_then (run_blank rfl hx), run_cons ⟨.value, true :: σ⟩ rfl,
    run_then (run_blank rfl hy)]

private theorem derives_reads (h : Derives (Number exponent) k d t) : Reads k t := by
  induction h with
  | null => exact fun σ => done_after
  | true => exact fun σ => done_after
  | false => exact fun σ => done_after
  | number h => exact fun σ => run_number h
  | string h =>
    intro σ
    rw [run_cons ⟨.string Bool.false, σ⟩ rfl, run_quoted h]
    exact done_after
  | emptyArray blank =>
    intro σ
    rw [run_cons ⟨.open, Bool.false :: σ⟩ rfl, run_then (run_blank rfl blank)]
    exact done_after
  | array _ ih =>
    intro σ
    rw [run_cons ⟨.open, Bool.false :: σ⟩ rfl, (ih σ).2.step (by decide)]
    exact done_after
  | emptyObject blank =>
    intro σ
    rw [run_cons ⟨.brace, Bool.true :: σ⟩ rfl, run_then (run_blank rfl blank)]
    exact done_after
  | object _ ih =>
    intro σ
    rw [run_cons ⟨.brace, Bool.true :: σ⟩ rfl, (ih σ .brace (Or.inl rfl)).step (by decide)]
    exact done_after
  | element left h right ih =>
    intro σ
    rw [run_then (run_blank rfl left), run_then (run_blank rfl left)]
    have hvalue := ih (Bool.false :: σ)
    refine ⟨hvalue.blank right, Done.blank ?_ right⟩
    rwa [run_open h hvalue]
  | @elements _ _ v _ _ left h right _ ih ih' =>
    intro σ
    rw [run_then (run_blank rfl left), run_then (run_blank rfl left)]
    have hvalue := ih (Bool.false :: σ)
    have hopen : Done (Bool.false :: σ) (run ⟨.open, Bool.false :: σ⟩ v) := by
      rw [run_open h hvalue]
      exact hvalue
    have hcomma : next (Bool.false :: σ) 44 = some ⟨.value, Bool.false :: σ⟩ := rfl
    rw [← List.append_assoc, (hvalue.blank right).step (by decide),
      (hopen.blank right).step (by decide), hcomma]
    exact ⟨(ih' σ).1, (ih' σ).1⟩
  | member left name before after _ right ih =>
    intro σ m hm
    rw [run_key hm left name before after]
    exact (ih (Bool.true :: σ)).blank right
  | members left name before after _ right _ ih ih' =>
    intro σ m hm
    have hcomma : next (Bool.true :: σ) 44 = some ⟨.name, Bool.true :: σ⟩ := rfl
    rw [run_key hm left name before after, ← List.append_assoc,
      ((ih (Bool.true :: σ)).blank right).step (by decide), hcomma]
    exact ih' σ .name (Or.inr rfl)

theorem value_reads (h : Value v) (σ : List Bool) : Done σ (run ⟨.value, σ⟩ v) := by
  obtain ⟨d, h⟩ := h
  exact derives_reads h σ

end Completeness

section Texts

theorem text_reads (h : IsText t) (σ : List Bool) : Done σ (run ⟨.value, σ⟩ t) := by
  obtain ⟨d, w, v, w', hw, hw', hv, rfl⟩ := h
  rw [run_then (run_blank rfl hw)]
  exact (derives_reads hv σ).blank hw'

/-- The machine accepts the texts of the grammar, and no others. -/
theorem accepts_iff_text : Accepts start t ↔ IsText t := by
  constructor
  · intro h
    obtain ⟨w, v, r, hw, ⟨d, hv⟩, hr, rfl⟩ := accepts_awaits h
    cases hr with
    | done blank => exact ⟨d, w, v, r, hw, blank, hv, rfl⟩
  · exact fun h => text_reads h []

/-- A text that begins with a brace is an object. -/
private theorem text_object (h : IsText (123 :: t)) : ∃ ms, IsObject (123 :: t) ms := by
  obtain ⟨d, w, v, w', hw, hw', hv, heq⟩ := h
  obtain ⟨rfl, hv'⟩ := blank_head hw (by decide) heq.symm
  rw [← hv']
  clear heq
  have hother : ∀ {c : UInt8} {u : Bytes}, c ≠ 123 → c :: u ++ w' ≠ 123 :: t :=
    fun hc h => hc (List.cons.inj h).1
  cases hv with
  | null => exact absurd hv' (hother (by decide))
  | true => exact absurd hv' (hother (by decide))
  | false => exact absurd hv' (hother (by decide))
  | number h =>
    obtain ⟨c, u, rfl, hc⟩ := number_head h
    refine absurd hv' (hother ?_)
    rintro rfl
    exact absurd hc (by decide)
  | string _ => exact absurd hv' (hother (by decide))
  | emptyArray _ => exact absurd hv' (hother (by decide))
  | array _ => exact absurd hv' (hother (by decide))
  | @emptyObject d x blank =>
    have hobject : Object AnyNumber 0 [] ([] ++ 123 :: (x ++ 125 :: w')) := .empty blank_nil blank hw'
    exact ⟨[], 0, by simpa using hobject⟩
  | @object d ms m h =>
    have hobject : Object AnyNumber d ms ([] ++ 123 :: (m ++ 125 :: w')) := .full blank_nil h hw'
    exact ⟨ms, d, by simpa using hobject⟩

theorem object_text {ms : List (Bytes × Bytes)} (h : IsObject t ms) : IsText t := by
  obtain ⟨d, h⟩ := h
  cases h with
  | @empty w x w' left inner right =>
    exact ⟨1, w, _, w', left, right, .emptyObject inner, by simp⟩
  | @full w m w' _ left h right => exact ⟨d + 1, w, _, w', left, right, .object h, by simp⟩

/-- Behind its brace, a text is an object exactly when the machine accepts it. -/
theorem object_iff_accepts :
    (∃ ms, IsObject (123 :: t) ms) ↔ Accepts ⟨.brace, [true]⟩ t := by
  have hstart : Accepts start (123 :: t) ↔ Accepts ⟨.brace, [true]⟩ t := by
    rw [accepts_cons]
    constructor
    · rintro ⟨s', hstep, h⟩
      obtain rfl := Option.some.inj hstep
      exact h
    · exact fun h => ⟨_, rfl, h⟩
  rw [← hstart, accepts_iff_text]
  exact ⟨fun ⟨ms, h⟩ => object_text h, text_object⟩

instance (s : State) (t : Bytes) : Decidable (Accepts s t) :=
  decidable_of_iff ((run s t).any (fun s' => ended s'.mode && s'.stack = []) = true) (by
    unfold Accepts
    cases run s t with
    | none => exact iff_of_false Bool.false_ne_true fun ⟨_, h, _⟩ => by cases h
    | some s' =>
      obtain ⟨m, σ⟩ := s'
      simp only [Option.any_some, Bool.and_eq_true, decide_eq_true_eq, Option.some.injEq,
        State.mk.injEq]
      constructor
      · rintro ⟨hm, rfl⟩
        exact ⟨m, ⟨rfl, rfl⟩, hm⟩
      · rintro ⟨m', ⟨rfl, rfl⟩, hm⟩
        exact ⟨hm, rfl⟩)

instance (t : Bytes) : Decidable (IsText t) := decidable_of_iff _ accepts_iff_text

example : IsText (ascii " [1, -2.5e3, \x7b\"a\": [true, null]\x7d] ") ∧ ¬IsText (ascii "[01]") := by
  decide

end Texts

end Cyctron.Json.Acceptor
