/- Cyctron/Mongoose/Object
   digest: On an object that is nested no deeper than its stack the reader finds the first member of a name. -/

import Cyctron.Json.Build
import Cyctron.Mongoose.Json

set_option autoImplicit false
set_option relaxedAutoImplicit false

namespace Cyctron.Mongoose.Object

open Cyctron.Base.CString Cyctron.Json.Text Cyctron.Json.Build Cyctron.Mongoose.Json

/-- What may stand behind a value. -/
def Follow (rest : Bytes) : Prop :=
  rest = [] ∨ ∃ c r, rest = c :: r ∧ (isWs c = true ∨ c = 44 ∨ c = 93 ∨ c = 125)

section Numbers

variable {d t s rest : Bytes} {c : UInt8} {n : Nat}

def digitsValue (n : Nat) (d : Bytes) : Nat := d.foldl (fun n c => n * 10 + (c.toNat - 48)) n

/-- The digits of an exponent that are read to the end: without the last one they are less than
308. -/
def Readable (d : Bytes) : Prop := digitsValue 0 d.dropLast < 308

theorem le_digitsValue (d : Bytes) (n : Nat) : n ≤ digitsValue n d := by
  induction d generalizing n with
  | nil => exact Nat.le_refl n
  | cons c d ih =>
    have hrest := ih (n * 10 + (c.toNat - 48))
    change n ≤ digitsValue (n * 10 + (c.toNat - 48)) d
    omega

/-- Digits end where something else follows. -/
def NoDigit (rest : Bytes) : Prop := ∀ c r, rest = c :: r → isDigit c = false

private theorem digitRun_append (h : ∀ c ∈ d, isDigit c = true) (stop : NoDigit rest) :
    digitRun (d ++ rest) = d.length := by
  induction d with
  | nil =>
    cases rest with
    | nil => rfl
    | cons c r =>
      have hc := stop c r rfl
      simp [digitRun, hc]
  | cons c d ih =>
    obtain ⟨hc, hd⟩ := List.forall_mem_cons.mp h
    have hrest := ih hd
    unfold digitRun at hrest ⊢
    rw [List.cons_append, List.takeWhile_cons, if_pos hc, List.length_cons, List.length_cons, hrest]

private theorem exponentRun_append (hne : d ≠ []) (h : ∀ c ∈ d, isDigit c = true)
    (small : digitsValue n d.dropLast < 308) (stop : NoDigit rest) :
    exponentRun n (d ++ rest) = d.length := by
  induction d generalizing n with
  | nil => exact absurd rfl hne
  | cons c d ih =>
    obtain ⟨hc, hd⟩ := List.forall_mem_cons.mp h
    have hn : n < 308 := Nat.lt_of_le_of_lt (le_digitsValue _ n) small
    rw [List.cons_append, exponentRun, if_pos ⟨hc, hn⟩, List.length_cons]
    cases d with
    | nil =>
      cases rest with
      | nil => rfl
      | cons c' r =>
        have hstop : ¬(isDigit c' = true ∧ n * 10 + (c.toNat - 48) < 308) := by
          simp [stop c' r rfl]
        rw [List.nil_append, exponentRun, if_neg hstop]
        rfl
    | cons c' d =>
      rw [List.dropLast_cons_cons] at small
      rw [ih (List.cons_ne_nil c' d) hd small]

theorem noDigit_cons (h : isDigit c = false) : NoDigit (c :: s) := by
  intro c' r heq
  obtain ⟨rfl, _⟩ := List.cons.inj heq
  exact h

private theorem noDigit_follow (h : Follow rest) : NoDigit rest := by
  rcases h with rfl | ⟨c, r, rfl, hc⟩
  · intro c r heq
    cases heq
  · refine noDigit_cons ?_
    rcases hc with hc | rfl | rfl | rfl
    · simp only [isWs, Bool.or_eq_true, decide_eq_true_eq] at hc
      rcases hc with ((rfl | rfl) | rfl) | rfl <;> decide
    all_goals decide

/-- Behind a value stands none of the bytes that a number could go on with. -/
private theorem follow_head (h : Follow rest) {b : UInt8} (hb : b = 46 ∨ b = 101 ∨ b = 69) :
    rest.head? ≠ some b := by
  rcases h with rfl | ⟨c, r, rfl, hc⟩
  · simp
  · intro heq
    obtain rfl := Option.some.inj heq
    rcases hb with rfl | rfl | rfl <;> revert hc <;> decide

private theorem atod_sign {sign u : Bytes} (signed : sign = [] ∨ sign = [45])
    (head : ∀ b, u.head? = some b → isDigit b = true) :
    (if (sign ++ u).head? = some 45 ∨ (sign ++ u).head? = some 43 then 1 else 0) =
      sign.length := by
  rcases signed with rfl | rfl
  · refine if_neg ?_
    rintro (h | h)
    · exact absurd (head 45 h) (by decide)
    · exact absurd (head 43 h) (by decide)
  · exact if_pos (Or.inl rfl)

private theorem atod_fraction {frac u : Bytes} {i : Nat}
    (fraction : frac = [] ∨ ∃ d, Digits d ∧ frac = 46 :: d) (h : s.drop i = frac ++ u)
    (stop : NoDigit u) (dot : u.head? ≠ some 46) :
    (if (s.drop i).head? = some 46 then i + 1 + digitRun (s.drop (i + 1)) else i) =
      i + frac.length := by
  rcases fraction with rfl | ⟨d, hd, rfl⟩
  · rw [List.nil_append] at h
    rw [h, if_neg dot]
    rfl
  · have hrest : s.drop (i + 1) = d ++ u := by
      rw [← List.drop_drop, h]
      rfl
    have hdot : (s.drop i).head? = some 46 := by
      rw [h]
      rfl
    rw [if_pos hdot, hrest, digitRun_append hd.2 stop, List.length_cons]
    omega

/-- The exponent, read as far as its value is small. -/
theorem atod_scale {e : UInt8} {sign d u : Bytes} {i k : Nat} (he : e = 101 ∨ e = 69)
    (hsign : sign = [] ∨ sign = [43] ∨ sign = [45]) (hd : Digits d)
    (h : s.drop i = e :: (sign ++ (d ++ u))) (hrun : exponentRun 0 (d ++ u) = k) :
    (if (s.drop i).head? = some 101 ∨ (s.drop i).head? = some 69 then
      let i := i + 1
      let i := if (s.drop i).head? = some 45 then i + 1 else i
      let i := if (s.drop i).head? = some 43 then i + 1 else i
      i + exponentRun 0 (s.drop i)
    else i) = i + 1 + sign.length + k := by
  have hyes : (s.drop i).head? = some 101 ∨ (s.drop i).head? = some 69 := by
    rw [h]
    exact he.imp (congrArg some) (congrArg some)
  have hdrop : s.drop (i + 1) = sign ++ (d ++ u) := by
    rw [← List.drop_drop, h]
    rfl
  obtain ⟨c, d', rfl⟩ := List.exists_cons_of_ne_nil hd.1
  have hc : isDigit c = true := hd.2 c List.mem_cons_self
  have h45 : c ≠ 45 := by
    rintro rfl
    exact absurd hc (by decide)
  have h43 : c ≠ 43 := by
    rintro rfl
    exact absurd hc (by decide)
  rw [if_pos hyes]
  dsimp only
  rcases hsign with rfl | rfl | rfl
  · simp only [List.nil_append] at hdrop ⊢
    simp [hdrop, h45, h43] at hrun ⊢
    omega
  · have hdrop2 : s.drop (i + 1 + 1) = c :: d' ++ u := by
      rw [← List.drop_drop, hdrop]
      rfl
    simp [hdrop, hdrop2] at hrun ⊢
    omega
  · have hdrop2 : s.drop (i + 1 + 1) = c :: d' ++ u := by
      rw [← List.drop_drop, hdrop]
      rfl
    simp [hdrop, hdrop2, h43] at hrun ⊢
    omega

private theorem atod_exponent {exp u : Bytes} {i : Nat}
    (scale : exp = [] ∨ ∃ e s d, (e = 101 ∨ e = 69) ∧ (s = [] ∨ s = [43] ∨ s = [45]) ∧
      Digits d ∧ Readable d ∧ exp = e :: (s ++ d))
    (h : s.drop i = exp ++ u) (follow : Follow u) :
    (if (s.drop i).head? = some 101 ∨ (s.drop i).head? = some 69 then
      let i := i + 1
      let i := if (s.drop i).head? = some 45 then i + 1 else i
      let i := if (s.drop i).head? = some 43 then i + 1 else i
      i + exponentRun 0 (s.drop i)
    else i) = i + exp.length := by
  rcases scale with rfl | ⟨e, sign, d, he, hsign, hd, readable, rfl⟩
  · have hno : ¬((s.drop i).head? = some 101 ∨ (s.drop i).head? = some 69) := by
      rw [h, List.nil_append]
      rintro (heq | heq)
      · exact follow_head follow (Or.inr (Or.inl rfl)) heq
      · exact follow_head follow (Or.inr (Or.inr rfl)) heq
    rw [if_neg hno]
    rfl
  · have hrun : exponentRun 0 (d ++ u) = d.length :=
      exponentRun_append hd.1 hd.2 readable (noDigit_follow follow)
    rw [List.cons_append, List.append_assoc] at h
    refine (atod_scale he hsign hd h hrun).trans ?_
    simp only [List.length_cons, List.length_append]
    omega

private theorem int_digits {int : Bytes}
    (digits : int = [48] ∨ (Digits int ∧ int.head? ≠ some 48)) : Digits int := by
  rcases digits with rfl | ⟨h, _⟩
  · refine ⟨List.cons_ne_nil _ _, fun c hc => ?_⟩
    obtain rfl := List.mem_singleton.mp hc
    decide
  · exact h

/-- What is read of a number before its exponent. -/
theorem atod_mantissa {sign int frac u : Bytes} (signed : sign = [] ∨ sign = [45])
    (digits : int = [48] ∨ (Digits int ∧ int.head? ≠ some 48))
    (fraction : frac = [] ∨ ∃ d, Digits d ∧ frac = 46 :: d) (stop : NoDigit u)
    (dot : u.head? ≠ some 46) : ∃ i s, i = (sign ++ (int ++ frac)).length ∧
      s = sign ++ (int ++ (frac ++ u)) ∧ s.drop i = u ∧
      atodLength s = if (s.drop i).head? = some 101 ∨ (s.drop i).head? = some 69 then
          let i := i + 1
          let i := if (s.drop i).head? = some 45 then i + 1 else i
          let i := if (s.drop i).head? = some 43 then i + 1 else i
          i + exponentRun 0 (s.drop i)
        else i := by
  have hint := int_digits digits
  have hfrac : NoDigit (frac ++ u) := by
    rcases fraction with rfl | ⟨d, _, rfl⟩
    · exact stop
    · exact noDigit_cons (by decide)
  have hhead : ∀ b, (int ++ (frac ++ u)).head? = some b → isDigit b = true := by
    obtain ⟨c, i, rfl⟩ := List.exists_cons_of_ne_nil hint.1
    intro b hb
    obtain rfl := Option.some.inj hb
    exact hint.2 c List.mem_cons_self
  unfold atodLength
  obtain ⟨s, hs⟩ : ∃ s, s = sign ++ (int ++ (frac ++ u)) := ⟨_, rfl⟩
  have h₁ : (if s.head? = some 45 ∨ s.head? = some 43 then 1 else 0) = sign.length := by
    rw [hs]
    exact atod_sign signed hhead
  have hdrop₁ : s.drop sign.length = int ++ (frac ++ u) := by rw [hs, List.drop_left]
  have h₂ : sign.length + digitRun (s.drop sign.length) = sign.length + int.length := by
    rw [hdrop₁, digitRun_append hint.2 hfrac]
  have hdrop₂ : s.drop (sign.length + int.length) = frac ++ u := by
    rw [← List.drop_drop, hdrop₁, List.drop_left]
  have h₃ := atod_fraction fraction hdrop₂ stop dot
  have hdrop₃ : s.drop (sign.length + int.length + frac.length) = u := by
    rw [← List.drop_drop, hdrop₂, List.drop_left]
  refine ⟨sign.length + int.length + frac.length, s, ?_, hs, hdrop₃, ?_⟩
  · simp only [List.length_append]
    omega
  · dsimp only
    rw [h₁, h₂, h₃]

/-- The whole of a number is read when a value can end behind it. -/
private theorem atodLength_number (h : Number Readable t) (follow : Follow rest) :
    atodLength (t ++ rest) = t.length := by
  obtain ⟨signed, digits, fraction, scale⟩ := h
  rename_i sign int frac exp
  have hexp : NoDigit (exp ++ rest) ∧ (exp ++ rest).head? ≠ some 46 := by
    rcases scale with rfl | ⟨e, s, d, he, _, _, _, rfl⟩
    · exact ⟨noDigit_follow follow, follow_head follow (Or.inl rfl)⟩
    · rcases he with rfl | rfl
      · exact ⟨noDigit_cons (by decide), by simp⟩
      · exact ⟨noDigit_cons (by decide), by simp⟩
  obtain ⟨i, s, hi, hs, hdrop, hlength⟩ := atod_mantissa signed digits fraction hexp.1 hexp.2
  have hwhole : sign ++ (int ++ (frac ++ exp)) ++ rest = s := by
    rw [hs]
    simp only [List.append_assoc]
  rw [hwhole, hlength, atod_exponent scale hdrop follow, hi]
  simp only [List.length_append]
  omega

end Numbers

section Strings

variable {b p s : Bytes} {c : UInt8}

private theorem pass_cons (zero : c ≠ 0) (quote : c ≠ 34) (backslash : c ≠ 92) :
    passFrom false (c :: s) = (passFrom false s).map (· + 1) := by
  rw [passFrom, if_neg fun h => backslash h.1, if_neg zero, if_neg quote]

private theorem pass_append (h : ∀ c ∈ p, c ≠ 0 ∧ c ≠ 34 ∧ c ≠ 92) :
    passFrom false (p ++ s) = (passFrom false s).map (· + p.length) := by
  induction p with
  | nil => simp
  | cons c p ih =>
    obtain ⟨hc, hp⟩ := List.forall_mem_cons.mp h
    rw [List.cons_append, pass_cons hc.1 hc.2.1 hc.2.2, ih hp, Option.map_map]
    rfl

private theorem pass_escape (h : jsonEsc c true ≠ 0) :
    passFrom false (92 :: c :: s) = (passFrom false s).map (· + 2) := by
  have hskip : (92 : UInt8) = 92 ∧ ((c :: s).head?.any fun e => jsonEsc e true ≠ 0) :=
    ⟨rfl, decide_eq_true h⟩
  rw [passFrom, if_pos hskip, passFrom, Option.map_map]
  rfl

private theorem pass_backslash (h : jsonEsc c true = 0) :
    passFrom false (92 :: c :: s) = (passFrom false (c :: s)).map (· + 1) := by
  have hread : ¬((92 : UInt8) = 92 ∧ ((c :: s).head?.any fun e => jsonEsc e true ≠ 0)) := by
    rintro ⟨_, hany⟩
    exact of_decide_eq_true hany h
  rw [passFrom, if_neg hread, if_neg (by decide), if_neg (by decide)]

/-- A backslash is passed over with the quote or the backslash behind it; other escapes are passed
byte by byte. -/
private theorem pass_body (h : Body b) :
    passFrom false (b ++ s) = (passFrom false s).map (· + b.length) := by
  induction h with
  | nil => simp
  | @plain c b printable quote backslash rest ih =>
    have zero : c ≠ 0 := by
      rintro rfl
      exact absurd printable (by decide)
    rw [List.cons_append, pass_cons zero quote backslash, ih, Option.map_map]
    rfl
  | @short c b letter rest ih =>
    by_cases hesc : jsonEsc c true = 0
    · have hc : c ≠ 0 ∧ c ≠ 34 ∧ c ≠ 92 := by
        refine ⟨?_, ?_, ?_⟩ <;> rintro rfl
        · exact absurd letter (by decide)
        · exact absurd hesc (by decide)
        · exact absurd hesc (by decide)
      rw [List.cons_append, List.cons_append, pass_backslash hesc, pass_cons hc.1 hc.2.1 hc.2.2, ih,
        Option.map_map, Option.map_map]
      rfl
    · rw [List.cons_append, List.cons_append, pass_escape hesc, ih, Option.map_map]
      rfl
  | @unicode h b four hex rest ih =>
    have hplain : ∀ c ∈ h, c ≠ 0 ∧ c ≠ 34 ∧ c ≠ 92 := by
      intro c hc
      have hhex := hex c hc
      refine ⟨?_, ?_, ?_⟩ <;> rintro rfl <;> exact absurd hhex (by decide)
    have hu : jsonEsc 117 true = 0 := by decide
    rw [List.cons_append, List.cons_append, List.append_assoc, pass_backslash hu,
      pass_cons (by decide) (by decide) (by decide), pass_append hplain, ih, Option.map_map,
      Option.map_map, Option.map_map]
    congr 1
    funext n
    simp only [Function.comp_apply, List.length_cons, List.length_append]
    omega

private theorem mgPassString_body (h : Body b) : mgPassString (b ++ 34 :: s) = some b.length := by
  have hquote : passFrom false (34 :: s) = some 0 := by simp [passFrom]
  rw [mgPassString, pass_body h, hquote, Option.map_some, Nat.zero_add]

end Strings

section Loop

variable {key : Bytes} {r : Reader} {c : UInt8} {b t u v w s rest : Bytes}

/-- The loop goes on behind the byte that gave this outcome. -/
def resume (key : Bytes) (o : Outcome) (s : Bytes) : Lookup :=
  match o with
  | .done l => l
  | .next r k => loop key r k s

private theorem loop_skip : loop key r w.length (w ++ s) = loop key r 0 s := by
  induction w with
  | nil => rfl
  | cons c w ih =>
    rw [List.length_cons, List.cons_append, loop]
    exact ih

theorem loop_blank (h : Blank w) : loop key r 0 (w ++ s) = loop key r 0 s := by
  induction w with
  | nil => rfl
  | cons c w ih =>
    obtain ⟨hc, hw⟩ := List.forall_mem_cons.mp h
    rw [List.cons_append, loop, if_pos hc]
    exact ih hw

theorem loop_cons (h : isWs c = false) :
    loop key r 0 (c :: s) = resume key (step key r c s) s := by
  have hno : ¬isWs c = true := by
    rw [h]
    exact Bool.false_ne_true
  rw [loop, if_neg hno]
  rfl

/-- The place of a value is kept when the value is one of the members that the reader looks at. -/
def marked (r : Reader) (t : Bytes) : Reader := if r.atDepth then { r with start := t } else r

/-- What comes of a value that is read to its end. -/
def afterValue (key : Bytes) (r : Reader) (v rest : Bytes) : Lookup :=
  if r.atDepth && r.matched then .found v
  else loop key { marked r (v ++ rest) with expecting := .commaOrEoo } 0 rest

private theorem marked_atDepth : (marked r t).atDepth = r.atDepth := by
  unfold marked
  split
  · rfl
  · rfl

private theorem marked_matched : (marked r t).matched = r.matched := by
  unfold marked
  split
  · rfl
  · rfl

theorem marked_nesting : (marked r t).nesting = r.nesting := by
  unfold marked
  split
  · rfl
  · rfl

theorem marked_entered : (marked r t).entered = r.entered := by
  unfold marked
  split
  · rfl
  · rfl

private theorem marked_expecting : (marked r t).expecting = r.expecting := by
  unfold marked
  split
  · rfl
  · rfl

private theorem take_value : (v ++ rest).take ((v ++ rest).length - rest.length) = v := by
  have hlength : (v ++ rest).length - rest.length = v.length := by
    rw [List.length_append]
    omega
  rw [hlength, List.take_left]

/-- The check behind a value, in the state that the reader had before it. -/
private theorem resume_checkRet {e : Expecting} {n : Nat} :
    resume key (checkRet { marked r (v ++ rest) with expecting := e } rest
      (.next { marked r (v ++ rest) with expecting := .commaOrEoo } n)) s =
    if r.atDepth && r.matched then .found v
    else loop key { marked r (v ++ rest) with expecting := .commaOrEoo } n s := by
  have hcheck : ({ marked r (v ++ rest) with expecting := e } : Reader).atDepth = r.atDepth :=
    marked_atDepth
  unfold checkRet
  dsimp only
  rw [hcheck, marked_matched]
  split
  · rename_i h
    have hdepth : r.atDepth = true := (Bool.and_eq_true_iff.mp h).1
    have hstart : (marked r (v ++ rest)).start = v ++ rest := by
      rw [marked, if_pos hdepth]
    rw [hstart, take_value]
    rfl
  · rfl

theorem loop_token (expecting : r.expecting = .value) (blank : isWs c = false)
    (h : stepValue r c (u ++ rest) =
      passValue (marked r (c :: u ++ rest)) (c :: u ++ rest) (c :: u).length) :
    loop key r 0 (c :: u ++ rest) = afterValue key r (c :: u) rest := by
  have hstep : step key r c (u ++ rest) = stepValue r c (u ++ rest) := by
    rw [step, expecting]
  rw [List.cons_append, loop_cons blank, hstep, h, passValue, List.drop_left]
  refine resume_checkRet.trans ?_
  rw [List.length_cons, Nat.add_sub_cancel, loop_skip]
  rfl

private theorem loop_true (expecting : r.expecting = .value) :
    loop key r 0 (ascii "true" ++ rest) = afterValue key r (ascii "true") rest := by
  have hword : ascii "true" = 116 :: [114, 117, 101] := by decide
  rw [hword]
  exact loop_token expecting (by decide) rfl

private theorem loop_null (expecting : r.expecting = .value) :
    loop key r 0 (ascii "null" ++ rest) = afterValue key r (ascii "null") rest := by
  have hword : ascii "null" = 110 :: [117, 108, 108] := by decide
  rw [hword]
  exact loop_token expecting (by decide) rfl

private theorem loop_false (expecting : r.expecting = .value) :
    loop key r 0 (ascii "false" ++ rest) = afterValue key r (ascii "false") rest := by
  have hword : ascii "false" = 102 :: [97, 108, 115, 101] := by decide
  rw [hword]
  exact loop_token expecting (by decide) rfl

private theorem loop_string (expecting : r.expecting = .value) (h : Body b) :
    loop key r 0 (34 :: (b ++ [34]) ++ rest) = afterValue key r (34 :: (b ++ [34])) rest := by
  refine loop_token expecting (by decide) ?_
  have hpass : mgPassString (b ++ [34] ++ rest) = some b.length := by
    rw [List.append_assoc]
    exact mgPassString_body h
  have hstep : stepValue r 34 (b ++ [34] ++ rest) =
      (mgPassString (b ++ [34] ++ rest)).elim (.done .invalid) fun n =>
        passValue (marked r (34 :: (b ++ [34]) ++ rest)) (34 :: (b ++ [34]) ++ rest) (n + 2) := by
    unfold stepValue
    cases mgPassString (b ++ [34] ++ rest) <;> rfl
  rw [hstep, hpass, List.length_cons, List.length_append, List.length_singleton]
  rfl

/-- A value that begins like a number is read as one. -/
theorem stepValue_number (hc : c = 45 ∨ isDigit c = true) :
    isWs c = false ∧ stepValue r c s = passValue (marked r (c :: s)) (c :: s) (atodLength (c :: s)) := by
  have hne : ∀ b : UInt8, b ≠ 45 → isDigit b = false → c ≠ b := by
    rintro b h45 hdigit rfl
    rcases hc with rfl | hc
    · exact h45 rfl
    · rw [hdigit] at hc
      cases hc
  have hword : ∀ (k : Nat) (w : Bytes), w.head?.any (fun b => b ≠ 45 ∧ isDigit b = false) →
      ¬(c :: s).take (k + 1) = w := by
    rintro k w hw rfl
    simp only [List.take_succ_cons, List.head?_cons, Option.any_some, decide_eq_true_eq] at hw
    exact hne c hw.1 hw.2 rfl
  constructor
  · simp only [isWs, Bool.or_eq_false_iff, decide_eq_false_iff_not]
    exact ⟨⟨⟨hne 32 (by decide) (by decide), hne 9 (by decide) (by decide)⟩,
      hne 10 (by decide) (by decide)⟩, hne 13 (by decide) (by decide)⟩
  · unfold stepValue
    dsimp only
    rw [if_neg (hne 123 (by decide) (by decide)), if_neg (hne 91 (by decide) (by decide)),
      if_neg fun h => hne 93 (by decide) (by decide) h.1, if_neg (hword 3 _ (by decide)),
      if_neg (hword 3 _ (by decide)), if_neg (hword 4 _ (by decide)), if_pos hc]
    rfl

private theorem loop_number (expecting : r.expecting = .value) (h : Number Readable t)
    (follow : Follow rest) : loop key r 0 (t ++ rest) = afterValue key r t rest := by
  obtain ⟨c, u, rfl, hc⟩ := number_head h
  obtain ⟨hblank, hstep⟩ := stepValue_number (r := r) (s := u ++ rest) hc
  have hlength := atodLength_number h follow
  rw [List.cons_append] at hlength
  refine loop_token expecting hblank ?_
  rw [hstep, hlength]
  rfl

end Loop

section Brackets

variable {key : Bytes} {r : Reader} {c : UInt8} {v w s t rest : Bytes}

/-- The reader behind an opening bracket at the front of a text. -/
def opened (r : Reader) (t : Bytes) (c : UInt8) : Reader :=
  { marked r t with
    expecting := if c = 123 then .key else .value
    nesting := c :: (marked r t).nesting }

theorem loop_open (expecting : r.expecting = .value) (entered : r.entered = true)
    (room : r.nesting.length < MG_JSON_MAX_DEPTH) (hc : c = 123 ∨ c = 91) :
    loop key r 0 (c :: s) = loop key (opened r (c :: s) c) 0 s := by
  have hroom : ¬MG_JSON_MAX_DEPTH ≤ (marked r (c :: s)).nesting.length := by
    rw [marked_nesting]
    exact Nat.not_le.mpr room
  have hblank : isWs c = false := by
    rcases hc with rfl | rfl
    · decide
    · decide
  rw [loop_cons hblank, step, expecting]
  dsimp only
  rcases hc with rfl | rfl
  · have hpush : stepValue r 123 s = pushNesting { marked r (123 :: s) with
        expecting := .key
        entered := (marked r (123 :: s)).entered || (marked r (123 :: s)).nesting.isEmpty } 123 :=
      rfl
    have hentered : (marked r (123 :: s)).entered = true := marked_entered.trans entered
    rw [hpush, pushNesting, if_neg hroom, hentered, Bool.true_or, ← hentered]
    rfl
  · have hpush : stepValue r 91 s = pushNesting (marked r (91 :: s)) 91 := rfl
    have hexpecting : (marked r (91 :: s)).expecting = .value := marked_expecting.trans expecting
    rw [hpush, pushNesting, if_neg hroom, opened, if_neg (by decide), ← hexpecting]
    rfl

private theorem opened_atDepth (entered : r.entered = true) (inside : r.nesting ≠ []) {e : Expecting} :
    ({ opened r t c with expecting := e } : Reader).atDepth = false := by
  have hentered : (marked r t).entered = true := marked_entered.trans entered
  have hinside : (marked r t).nesting.length ≠ 0 := by
    rw [marked_nesting]
    exact List.length_eq_zero_iff.not.mpr inside
  refine decide_eq_false ?_
  change (marked r t).nesting.length + 1 ≠ if (marked r t).entered then 1 else 0
  rw [if_pos hentered]
  omega

private theorem checkRet_twice {o : Outcome} :
    checkRet r rest (checkRet r rest o) = checkRet r rest o := by
  unfold checkRet
  split
  · rfl
  · rfl

private theorem eoo_cons {top : UInt8} {up : Bytes} {go : Reader → Outcome}
    (nesting : r.nesting = top :: up) :
    eoo r (top + 2) rest go = checkRet { r with nesting := up } rest (go { r with nesting := up }) := by
  rw [eoo, nesting]
  dsimp only
  rw [if_neg fun h => h rfl]

/-- The bracket that closes a container which the reader does not look into. -/
private theorem step_close {top : UInt8} {up : Bytes} (expecting : r.expecting = .commaOrEoo)
    (nesting : r.nesting = top :: up) (deep : r.atDepth = false) (htop : top = 123 ∨ top = 91) :
    step key r (top + 2) rest =
      checkRet { r with nesting := up } rest (.next { r with nesting := up } 0) := by
  have hcomma : ¬top + 2 = 44 := by
    rcases htop with rfl | rfl
    · decide
    · decide
  have hbracket : top + 2 = 93 ∨ top + 2 = 125 := by
    rcases htop with rfl | rfl
    · decide
    · decide
  have hstop : ¬(r.atDepth && top + 2 = 125 && r.entered && !r.matched) = true := by
    rw [deep]
    simp
  rw [step, expecting]
  dsimp only
  rw [stepCommaOrEoo, nesting]
  dsimp only
  rw [if_neg hcomma, if_pos hbracket, if_neg hstop, eoo_cons nesting, expecting]

private theorem isWs_close (hc : c = 123 ∨ c = 91) : isWs (c + 2) = false := by
  rcases hc with rfl | rfl
  · decide
  · decide

private theorem loop_close (entered : r.entered = true) (inside : r.nesting ≠ [])
    (hc : c = 123 ∨ c = 91) :
    loop key { opened r (v ++ rest) c with expecting := .commaOrEoo } 0 ((c + 2) :: rest) =
      afterValue key r v rest := by
  have hstep : step key { opened r (v ++ rest) c with expecting := .commaOrEoo } (c + 2) rest =
      checkRet { marked r (v ++ rest) with expecting := .commaOrEoo } rest
        (.next { marked r (v ++ rest) with expecting := .commaOrEoo } 0) :=
    step_close rfl rfl (opened_atDepth entered inside) hc
  rw [loop_cons (isWs_close hc), hstep, resume_checkRet]
  rfl

private theorem loop_emptyObject (expecting : r.expecting = .value) (entered : r.entered = true)
    (room : r.nesting.length < MG_JSON_MAX_DEPTH) (blank : Blank w) :
    loop key r 0 (123 :: (w ++ [125]) ++ rest) = afterValue key r (123 :: (w ++ [125])) rest := by
  have hstep : step key (opened r (123 :: (w ++ [125]) ++ rest) 123) 125 rest =
      checkRet { marked r (123 :: (w ++ [125]) ++ rest) with expecting := .key } rest
        (.next { marked r (123 :: (w ++ [125]) ++ rest) with expecting := .commaOrEoo } 0) := by
    have hend : step key (opened r (123 :: (w ++ [125]) ++ rest) 123) 125 rest =
        eoo (opened r (123 :: (w ++ [125]) ++ rest) 123) (123 + 2) rest fun r =>
          .next { r with expecting := .commaOrEoo } 0 := rfl
    rw [hend]
    exact eoo_cons rfl
  calc loop key r 0 (123 :: (w ++ [125]) ++ rest)
    _ = loop key (opened r (123 :: (w ++ [125]) ++ rest) 123) 0 (w ++ [125] ++ rest) :=
      loop_open expecting entered room (Or.inl rfl)
    _ = loop key (opened r (123 :: (w ++ [125]) ++ rest) 123) 0 (125 :: rest) := by
      rw [List.append_assoc, loop_blank blank]
      rfl
    _ = afterValue key r (123 :: (w ++ [125])) rest := by
      rw [loop_cons (by decide), hstep, resume_checkRet]
      rfl

private theorem step_emptyArray {up : Bytes} (expecting : r.expecting = .value)
    (deep : r.atDepth = false)
    (nesting : r.nesting = 91 :: up) :
    step key r 93 rest = checkRet { r with nesting := up } rest
      (passValue { r with nesting := up } (93 :: rest) 1) := by
  have hinside : (93 : UInt8) = 93 ∧ r.nesting ≠ [] := by
    rw [nesting]
    exact ⟨rfl, List.cons_ne_nil 91 up⟩
  rw [step, expecting]
  dsimp only
  unfold stepValue
  dsimp only
  rw [deep, if_neg Bool.false_ne_true, if_neg (by decide), if_neg (by decide), if_pos hinside]
  exact eoo_cons nesting

private theorem loop_emptyArray (expecting : r.expecting = .value) (entered : r.entered = true)
    (inside : r.nesting ≠ []) (room : r.nesting.length < MG_JSON_MAX_DEPTH) (blank : Blank w) :
    loop key r 0 (91 :: (w ++ [93]) ++ rest) = afterValue key r (91 :: (w ++ [93])) rest := by
  have hdeep : (opened r (91 :: (w ++ [93]) ++ rest) 91).atDepth = false :=
    opened_atDepth entered inside
  have hstep : step key (opened r (91 :: (w ++ [93]) ++ rest) 91) 93 rest =
      checkRet { marked r (91 :: (w ++ [93]) ++ rest) with expecting := .value } rest
        (.next { marked r (91 :: (w ++ [93]) ++ rest) with expecting := .commaOrEoo } 0) := by
    refine (step_emptyArray rfl hdeep rfl).trans ?_
    exact checkRet_twice
  calc loop key r 0 (91 :: (w ++ [93]) ++ rest)
    _ = loop key (opened r (91 :: (w ++ [93]) ++ rest) 91) 0 (w ++ [93] ++ rest) :=
      loop_open expecting entered room (Or.inr rfl)
    _ = loop key (opened r (91 :: (w ++ [93]) ++ rest) 91) 0 (93 :: rest) := by
      rw [List.append_assoc, loop_blank blank]
      rfl
    _ = afterValue key r (91 :: (w ++ [93])) rest := by
      rw [loop_cons (by decide), hstep, resume_checkRet]
      rfl

end Brackets

section Members

variable {key : Bytes} {r : Reader} {c top : UInt8} {d : Nat} {n t v w x y s up rest : Bytes}

theorem deep_of_nesting (entered : r.entered = true) (nesting : r.nesting = top :: up)
    (inside : up ≠ []) : r.atDepth = false := by
  have hup : up.length ≠ 0 := List.length_eq_zero_iff.not.mpr inside
  refine decide_eq_false ?_
  rw [nesting, if_pos entered, List.length_cons]
  omega

private theorem depth_of_nesting (entered : r.entered = true) (nesting : r.nesting = [top]) :
    r.atDepth = true := by
  refine decide_eq_true ?_
  rw [nesting, if_pos entered]
  rfl

theorem afterValue_deep (deep : r.atDepth = false) :
    afterValue key r v rest = loop key { r with expecting := .commaOrEoo } 0 rest := by
  rw [afterValue, marked, deep, Bool.false_and, if_neg Bool.false_ne_true, if_neg Bool.false_ne_true]

theorem follow_blank (blank : Blank w) (hc : c = 44 ∨ c = 93 ∨ c = 125) : Follow (w ++ c :: s) := by
  cases w with
  | nil => exact Or.inr ⟨c, s, rfl, Or.inr hc⟩
  | cons b w => exact Or.inr ⟨b, w ++ c :: s, rfl, Or.inl (blank b List.mem_cons_self)⟩

theorem loop_comma (expecting : r.expecting = .commaOrEoo) (nesting : r.nesting = top :: up) :
    loop key r 0 (44 :: s) =
      loop key { r with expecting := if top = 123 then .key else .value } 0 s := by
  rw [loop_cons (by decide), step, expecting]
  dsimp only
  rw [stepCommaOrEoo, nesting]
  rfl

private theorem loop_colon (expecting : r.expecting = .colon) :
    loop key r 0 (58 :: s) = loop key { r with expecting := .value } 0 s := by
  rw [loop_cons (by decide), step, expecting]
  rfl

private theorem loop_name (expecting : r.expecting = .key) (entered : r.entered = true)
    (fresh : (r.atDepth && r.matched) = false) (name : Body n) :
    loop key r 0 (34 :: (n ++ 34 :: s)) = loop key { r with
      expecting := .colon
      matched := r.matched || (r.atDepth && n = key) } 0 s := by
  have hgo : ¬(r.atDepth && (r.matched || !r.entered)) = true := by
    rw [entered, Bool.not_true, Bool.or_false, fresh]
    exact Bool.false_ne_true
  have hskip : n ++ 34 :: s = n ++ [34] ++ s := by rw [List.append_assoc, List.singleton_append]
  rw [loop_cons (by decide), step, expecting]
  dsimp only
  rw [stepKey, if_pos rfl, mgPassString_body name]
  dsimp only
  rw [if_neg hgo, List.take_left, entered, Bool.and_true, hskip, resume]
  have hlength : n.length + 1 = (n ++ [34]).length := by
    rw [List.length_append, List.length_singleton]
  rw [hlength, loop_skip]

/-- Up to the value of a member. -/
theorem loop_member (expecting : r.expecting = .key) (entered : r.entered = true)
    (fresh : (r.atDepth && r.matched) = false) (left : Blank w) (name : Body n) (before : Blank x)
    (after : Blank y) :
    loop key r 0 (w ++ 34 :: (n ++ 34 :: (x ++ 58 :: (y ++ s)))) = loop key { r with
      expecting := .value
      matched := r.matched || (r.atDepth && n = key) } 0 s := by
  rw [loop_blank left, loop_name expecting entered fresh name, loop_blank before, loop_colon rfl,
    loop_blank after]

theorem loop_member_deep (expecting : r.expecting = .key) (entered : r.entered = true)
    (deep : r.atDepth = false) (left : Blank w) (name : Body n) (before : Blank x)
    (after : Blank y) :
    loop key r 0 (w ++ 34 :: (n ++ 34 :: (x ++ 58 :: (y ++ s)))) =
      loop key { r with expecting := .value } 0 s := by
  have hfresh : (r.atDepth && r.matched) = false := by rw [deep, Bool.false_and]
  rw [loop_member expecting entered hfresh left name before after, deep, Bool.false_and,
    Bool.or_false]

end Members

section Derivations

variable {key : Bytes} {d : Nat} {t rest : Bytes} {k : Kind} {ms : List (Bytes × Bytes)}

/-- The loop passes over a part of the text: over a value wherever it stands, over what is inside a
container only below the members it looks at. -/
def Passes (key : Bytes) (d : Nat) (t : Bytes) : Kind → Prop
  | .value => ∀ (r : Reader) (rest : Bytes), r.expecting = .value → r.entered = true →
      r.nesting ≠ [] → r.nesting.length + d ≤ MG_JSON_MAX_DEPTH → Follow rest →
      loop key r 0 (t ++ rest) = afterValue key r t rest
  | .elements => ∀ (r : Reader) (up rest : Bytes), r.expecting = .value → r.entered = true →
      r.nesting = 91 :: up → up ≠ [] → r.nesting.length + d ≤ MG_JSON_MAX_DEPTH →
      loop key r 0 (t ++ 93 :: rest) =
        loop key { r with expecting := .commaOrEoo } 0 (93 :: rest)
  | .members _ => ∀ (r : Reader) (up rest : Bytes), r.expecting = .key → r.entered = true →
      r.nesting = 123 :: up → up ≠ [] → r.nesting.length + d ≤ MG_JSON_MAX_DEPTH →
      loop key r 0 (t ++ 125 :: rest) =
        loop key { r with expecting := .commaOrEoo } 0 (125 :: rest)

/-- A container with something inside. -/
private theorem loop_container {r : Reader} {c : UInt8} (expecting : r.expecting = .value)
    (entered : r.entered = true) (inside : r.nesting ≠ [])
    (room : r.nesting.length < MG_JSON_MAX_DEPTH) (hc : c = 123 ∨ c = 91)
    (inner : ∀ v, loop key (opened r v c) 0 (t ++ (c + 2) :: rest) =
      loop key { opened r v c with expecting := .commaOrEoo } 0 ((c + 2) :: rest)) :
    loop key r 0 (c :: (t ++ [c + 2]) ++ rest) = afterValue key r (c :: (t ++ [c + 2])) rest := by
  have hinner := inner (c :: (t ++ [c + 2]) ++ rest)
  calc loop key r 0 (c :: (t ++ [c + 2]) ++ rest)
    _ = loop key (opened r (c :: (t ++ [c + 2]) ++ rest) c) 0 (t ++ [c + 2] ++ rest) :=
      loop_open expecting entered room hc
    _ = loop key { opened r (c :: (t ++ [c + 2]) ++ rest) c with expecting := .commaOrEoo } 0
        ((c + 2) :: rest) := by
      rw [List.append_assoc]
      exact hinner
    _ = afterValue key r (c :: (t ++ [c + 2])) rest := loop_close entered inside hc

theorem passes (h : Derives (Number Readable) k d t) : Passes key d t k := by
  induction h with
  | null =>
    intro r rest expecting entered inside room follow
    exact loop_null expecting
  | true =>
    intro r rest expecting entered inside room follow
    exact loop_true expecting
  | false =>
    intro r rest expecting entered inside room follow
    exact loop_false expecting
  | number h =>
    intro r rest expecting entered inside room follow
    exact loop_number expecting h follow
  | string h =>
    intro r rest expecting entered inside room follow
    exact loop_string expecting h
  | emptyArray blank =>
    intro r rest expecting entered inside room follow
    exact loop_emptyArray expecting entered inside (by omega) blank
  | array h ih =>
    intro r rest expecting entered inside room follow
    refine loop_container expecting entered inside (by omega) (Or.inr rfl) fun v => ?_
    have hnesting : (opened r v 91).nesting = 91 :: r.nesting :=
      congrArg (List.cons 91) marked_nesting
    refine ih (opened r v 91) r.nesting rest rfl (marked_entered.trans entered) hnesting inside ?_
    rw [hnesting, List.length_cons]
    omega
  | emptyObject blank =>
    intro r rest expecting entered inside room follow
    exact loop_emptyObject expecting entered (by omega) blank
  | object h ih =>
    intro r rest expecting entered inside room follow
    refine loop_container expecting entered inside (by omega) (Or.inl rfl) fun v => ?_
    have hnesting : (opened r v 123).nesting = 123 :: r.nesting :=
      congrArg (List.cons 123) marked_nesting
    refine ih (opened r v 123) r.nesting rest rfl (marked_entered.trans entered) hnesting inside ?_
    rw [hnesting, List.length_cons]
    omega
  | element left h right ih =>
    intro r up rest expecting entered nesting inside room
    have hdeep := deep_of_nesting entered nesting inside
    have hvalue := ih r _ expecting entered (nesting ▸ List.cons_ne_nil 91 up) room
      (follow_blank (s := rest) right (Or.inr (Or.inl rfl)))
    rw [List.append_assoc, List.append_assoc, loop_blank left, hvalue, afterValue_deep hdeep,
      loop_blank right]
  | @elements d w v w' e left h right more ih ihrest =>
    intro r up rest expecting entered nesting inside room
    have hdeep := deep_of_nesting entered nesting inside
    have hvalue := ih r _ expecting entered (nesting ▸ List.cons_ne_nil 91 up) room
      (follow_blank (s := e ++ 93 :: rest) right (Or.inl rfl))
    have hcomma : loop key { r with expecting := .commaOrEoo } 0 (44 :: (e ++ 93 :: rest)) = _ :=
      loop_comma rfl nesting
    have hmore := ihrest r up rest expecting entered nesting inside room
    simp only [List.append_assoc, List.cons_append]
    rw [loop_blank left, hvalue, afterValue_deep hdeep, loop_blank right, hcomma]
    refine Eq.trans ?_ hmore
    exact congrArg (fun x : Expecting => loop key { r with expecting := x } 0 (e ++ 93 :: rest))
      expecting.symm
  | member left name before after h right ih =>
    intro r up rest expecting entered nesting inside room
    have hdeep := deep_of_nesting entered nesting inside
    have hvalueDeep : ({ r with expecting := .value } : Reader).atDepth = false := hdeep
    have hvalue := ih { r with expecting := .value } _ rfl entered (nesting ▸ List.cons_ne_nil 123 up)
      room (follow_blank (s := rest) right (Or.inr (Or.inr rfl)))
    simp only [List.append_assoc, List.cons_append]
    rw [loop_member_deep expecting entered hdeep left name before after, hvalue,
      afterValue_deep hvalueDeep, loop_blank right]
  | @members d w n x y v w' m ms left name before after h right more ih ihmore =>
    intro r up rest expecting entered nesting inside room
    have hdeep := deep_of_nesting entered nesting inside
    have hvalueDeep : ({ r with expecting := .value } : Reader).atDepth = false := hdeep
    have hvalue := ih { r with expecting := .value } _ rfl entered (nesting ▸ List.cons_ne_nil 123 up)
      room (follow_blank (s := m ++ 125 :: rest) right (Or.inl rfl))
    have hcomma : loop key { r with expecting := .commaOrEoo } 0 (44 :: (m ++ 125 :: rest)) = _ :=
      loop_comma rfl nesting
    have hmore := ihmore r up rest expecting entered nesting inside room
    simp only [List.append_assoc, List.cons_append]
    rw [loop_member_deep expecting entered hdeep left name before after, hvalue,
      afterValue_deep hvalueDeep, loop_blank right, hcomma]
    refine Eq.trans ?_ hmore
    exact congrArg (fun x : Expecting => loop key { r with expecting := x } 0 (m ++ 125 :: rest))
      expecting.symm

/-- What comes of a list of members that the reader looks at. -/
def memberLookup (key : Bytes) (ms : List (Bytes × Bytes)) : Lookup :=
  match lookup key ms with
  | some v => .found v
  | none => .notFound

private theorem memberLookup_match {n v : Bytes} (h : n = key) :
    memberLookup key ((n, v) :: ms) = .found v := by
  have hfirst : lookup key ((n, v) :: ms) = some v := by simp [lookup, h]
  rw [memberLookup, hfirst]

private theorem memberLookup_other {n v : Bytes} (h : n ≠ key) :
    memberLookup key ((n, v) :: ms) = memberLookup key ms := by
  have hrest : lookup key ((n, v) :: ms) = lookup key ms := by simp [lookup, h]
  rw [memberLookup, hrest, memberLookup]

/-- The object that the reader looks into ends without the member. -/
theorem loop_end {r : Reader} (expecting : r.expecting = .commaOrEoo) (entered : r.entered = true)
    (nesting : r.nesting = [123]) (unmatched : r.matched = false) :
    loop key r 0 (125 :: rest) = .notFound := by
  have hdepth := depth_of_nesting entered nesting
  have hstop : (r.atDepth && (125 : UInt8) = 125 && r.entered && !r.matched) = true := by
    rw [hdepth, entered, unmatched]
    decide
  rw [loop_cons (by decide), step, expecting]
  dsimp only
  rw [stepCommaOrEoo, nesting]
  dsimp only
  rw [if_neg (by decide), if_pos (by decide), if_pos hstop]
  rfl

/-- The reader in the object that it looks into, before the member. -/
structure Searching (r : Reader) : Prop where
  entered : r.entered = true
  nesting : r.nesting = [123]
  unmatched : r.matched = false

/-- A member at the top: its value is found, or the search goes on. -/
theorem search_member (key : Bytes) {r : Reader} {w n x y v : Bytes} (searching : Searching r)
    (expecting : r.expecting = .key) (left : Blank w) (name : Body n) (before : Blank x)
    (after : Blank y) (h : Derives (Number Readable) .value d v)
    (room : 1 + d ≤ MG_JSON_MAX_DEPTH) (follow : Follow rest) :
    (n = key ∧ loop key r 0 (w ++ 34 :: (n ++ 34 :: (x ++ 58 :: (y ++ (v ++ rest))))) = .found v) ∨
    (n ≠ key ∧ ∃ r', Searching r' ∧ r'.expecting = .commaOrEoo ∧
      loop key r 0 (w ++ 34 :: (n ++ 34 :: (x ++ 58 :: (y ++ (v ++ rest))))) = loop key r' 0 rest) := by
  have hdepth := depth_of_nesting searching.entered searching.nesting
  have hfresh : (r.atDepth && r.matched) = false := by
    rw [searching.unmatched, Bool.and_false]
  have hmember : loop key r 0 (w ++ 34 :: (n ++ 34 :: (x ++ 58 :: (y ++ (v ++ rest))))) = _ :=
    loop_member expecting searching.entered hfresh left name before after
  rw [hdepth, searching.unmatched, Bool.true_and, Bool.false_or] at hmember
  have hpasses : Passes key d v .value := passes h
  have hvalue := hpasses { r with expecting := .value, matched := n = key } rest rfl
    searching.entered (searching.nesting ▸ List.cons_ne_nil 123 [])
    (by
      change r.nesting.length + d ≤ MG_JSON_MAX_DEPTH
      rw [searching.nesting]
      exact room) follow
  have hvalueDepth : ({ r with expecting := .value, matched := n = key } : Reader).atDepth = true :=
    hdepth
  rw [hmember, hvalue, afterValue, hvalueDepth, Bool.true_and]
  dsimp only
  by_cases hn : n = key
  · refine Or.inl ⟨hn, ?_⟩
    rw [if_pos (decide_eq_true hn)]
  · refine Or.inr ⟨hn, _, ⟨?_, ?_, ?_⟩, ?_, if_neg fun h => hn (of_decide_eq_true h)⟩
    · exact marked_entered.trans searching.entered
    · exact marked_nesting.trans searching.nesting
    · exact marked_matched.trans (decide_eq_false hn)
    · rfl

private theorem loop_members (h : Derives (Number Readable) k d t) : ∀ ms, k = .members ms →
    ∀ r : Reader, Searching r → r.expecting = .key → 1 + d ≤ MG_JSON_MAX_DEPTH →
      loop key r 0 (t ++ 125 :: rest) = memberLookup key ms := by
  induction h with
  | @member d w n x y v w' left name before after h right =>
    intro ms hk r searching expecting room
    obtain rfl := Kind.members.inj hk
    simp only [List.append_assoc, List.cons_append]
    have hfollow : Follow (w' ++ 125 :: rest) := follow_blank right (Or.inr (Or.inr rfl))
    rcases search_member key searching expecting left name before after h room hfollow with
      ⟨hn, hfound⟩ | ⟨hn, r', hsearching, hexpecting, hgo⟩
    · rw [hfound, memberLookup_match hn]
    · rw [hgo, loop_blank right,
        loop_end hexpecting hsearching.entered hsearching.nesting hsearching.unmatched,
        memberLookup_other hn]
      rfl
  | @members d w n x y v w' m ms left name before after h right more _ ih =>
    intro ms' hk r searching expecting room
    obtain rfl := Kind.members.inj hk
    simp only [List.append_assoc, List.cons_append]
    have hfollow : Follow (w' ++ 44 :: (m ++ 125 :: rest)) := follow_blank right (Or.inl rfl)
    rcases search_member key searching expecting left name before after h room hfollow with
      ⟨hn, hfound⟩ | ⟨hn, r', hsearching, hexpecting, hgo⟩
    · rw [hfound, memberLookup_match hn]
    · rw [hgo, loop_blank right, loop_comma hexpecting hsearching.nesting, memberLookup_other hn]
      exact ih ms rfl _ ⟨hsearching.entered, hsearching.nesting, hsearching.unmatched⟩ rfl room
  | _ =>
    intro ms hk
    cases hk

/-- The top object is entered at its bracket. -/
theorem loop_enter {w s : Bytes} (left : Blank w) :
    loop key .initial 0 (w ++ 123 :: s) =
      loop key ⟨.key, [123], true, false, 123 :: s⟩ 0 s := by
  rw [loop_blank left, loop_cons (by decide)]
  rfl

/-- In an empty object there is nothing to find. -/
theorem loop_empty {w x w' : Bytes} (left : Blank w) (inner : Blank x) (right : Blank w') :
    loop key .initial 0 (w ++ 123 :: (x ++ 125 :: w')) = .notFound := by
  have hend : step key ⟨.key, [123], true, false, 123 :: (x ++ 125 :: w')⟩ 125 w' =
      .next ⟨.commaOrEoo, [], true, false, 123 :: (x ++ 125 :: w')⟩ 0 := rfl
  rw [loop_enter left, loop_blank inner, loop_cons (by decide), hend, resume,
    ← List.append_nil w', loop_blank right]
  rfl

/-- On an object the reader gives the first member of a name, as it is written. -/
private theorem loop_object (h : Object (Number Readable) d ms t) (room : 1 + d ≤ MG_JSON_MAX_DEPTH) :
    loop key .initial 0 t = memberLookup key ms := by
  cases h with
  | empty left inner right => exact loop_empty left inner right
  | @full w m w' ms left h right =>
    rw [loop_enter left]
    exact loop_members h ms rfl _ ⟨rfl, rfl, rfl⟩ rfl room

section Paths

theorem take_intLength (short : t.length < 2 ^ 31) : t.take (intLength t.length) = t := by
  have hmod : t.length % 2 ^ 32 = t.length := Nat.mod_eq_of_lt (Nat.lt_trans short (by decide))
  rw [intLength, hmod, if_pos short, List.take_length]

/-- Of a text that is too long for an `int`, nothing is read. -/
theorem mgJsonGet_long {path : String} (hpath : (ascii path).head? = some 36)
    (long : 2 ^ 31 ≤ t.length) (below : t.length < 2 ^ 32) : mgJsonGet t path = .notFound := by
  have hmod : t.length % 2 ^ 32 = t.length := Nat.mod_eq_of_lt below
  rw [mgJsonGet, if_neg fun h => h hpath, intLength, hmod, if_neg (Nat.not_lt.mpr long), List.take_zero]
  rfl

variable {path : String} (hpath : ascii path = 36 :: 46 :: key)
  (h : Object (Number Readable) d ms t) (room : 1 + d ≤ MG_JSON_MAX_DEPTH)
  (short : t.length < 2 ^ 31)

include hpath h room short

private theorem mgJsonGet_object : mgJsonGet t path = memberLookup key ms := by
  have hdollar : ¬(ascii path).head? ≠ some 36 := by
    rw [hpath]
    exact fun h => h rfl
  rw [mgJsonGet, if_neg hdollar, hpath, take_intLength short]
  exact loop_object h room

theorem mgJsonGetTok_object : mgJsonGetTok t path = (lookup key ms).getD [] := by
  rw [mgJsonGetTok, mgJsonGet_object hpath h room short, memberLookup]
  cases lookup key ms with
  | none => rfl
  | some v => rfl

/-- The string that the reader makes of a value. -/
def readString (v : Bytes) : Option Bytes :=
  if 1 < v.length ∧ v.head? = some 34 then
    (mgJsonUnescape ((v.drop 1).take (v.length - 2))).map cString
  else none

theorem mgJsonGetStr_object : mgJsonGetStr t path = (lookup key ms).bind readString := by
  rw [mgJsonGetStr, mgJsonGet_object hpath h room short, memberLookup]
  cases lookup key ms with
  | none => rfl
  | some v => rfl

end Paths

end Derivations

end Cyctron.Mongoose.Object
