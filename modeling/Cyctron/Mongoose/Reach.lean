/- Cyctron/Mongoose/Reach
   digest: What the reader finds in any object: the first member of a name, when it can pass what stands before. -/

import Cyctron.Mongoose.Strings

set_option autoImplicit false
set_option relaxedAutoImplicit false

namespace Cyctron.Mongoose.Reach

open Cyctron.Base.CString Cyctron.Json.Text Cyctron.Json.Build Cyctron.Json.Escape
open Cyctron.Mongoose.Json Cyctron.Mongoose.Object Cyctron.Mongoose.Strings

/-- The reader can pass over such a value of a member. -/
def Followable (v : Bytes) : Prop := Derives (Number Readable) .value 29 v

/-- The first member of the name, with nothing before it that the reader cannot pass over. -/
def Reaches (key : Bytes) (ms : List (Bytes × Bytes)) (v : Bytes) : Prop :=
  ∃ front back, ms = front ++ (key, v) :: back ∧ ∀ m ∈ front, m.1 ≠ key ∧ Followable m.2

/-- No string is found. -/
def Dull (l : Lookup) : Prop := ∀ tok, l = .found tok → tok.head? ≠ some 34

variable {key d t u v w s rest : Bytes} {c : UInt8} {r : Reader} {k : Kind} {n : Nat}
  {ms : List (Bytes × Bytes)}

section Numbers

/-- Digits of an exponent that are too many: the reader stops at one of them. -/
private theorem exponentRun_stops (hne : d ≠ []) (h : ∀ c ∈ d, isDigit c = true)
    (large : 308 ≤ digitsValue n d.dropLast) :
    ∃ p c q, d = p ++ c :: q ∧ isDigit c = true ∧ exponentRun n (d ++ u) = p.length := by
  induction d generalizing n with
  | nil => exact absurd rfl hne
  | cons c d ih =>
    obtain ⟨hc, hd⟩ := List.forall_mem_cons.mp h
    by_cases hn : n < 308
    · have htail : d ≠ [] := by
        rintro rfl
        exact absurd large (Nat.not_le.mpr hn)
      obtain ⟨c', d', rfl⟩ := List.exists_cons_of_ne_nil htail
      rw [List.dropLast_cons_cons] at large
      obtain ⟨p, x, q, heq, hx, hrun⟩ := ih (n := n * 10 + (c.toNat - 48)) htail hd large
      refine ⟨c :: p, x, q, by rw [heq, List.cons_append], hx, ?_⟩
      rw [List.cons_append, exponentRun, if_pos ⟨hc, hn⟩, hrun, List.length_cons]
    · refine ⟨[], c, d, rfl, hc, ?_⟩
      rw [List.cons_append, exponentRun, if_neg fun h => hn h.2]
      rfl

/-- Of a number whose exponent is too large a front is read, and a digit stands behind it. -/
private theorem atodLength_stops (rest : Bytes) (h : AnyNumber t) (hno : ¬Number Readable t) :
    ∃ b p c q, t = b :: (p ++ c :: q) ∧ (b = 45 ∨ isDigit b = true) ∧ isDigit c = true ∧
      atodLength (t ++ rest) = p.length + 1 := by
  obtain ⟨b, t', ht, hb⟩ := number_head h
  obtain ⟨signed, digits, fraction, scale⟩ := h
  rename_i sign int frac exp
  rcases scale with rfl | ⟨e, sg, d, he, hsg, hd, _, rfl⟩
  · exact absurd ⟨signed, digits, fraction, Or.inl rfl⟩ hno
  by_cases hread : Readable d
  · exact absurd ⟨signed, digits, fraction, Or.inr ⟨e, sg, d, he, hsg, hd, hread, rfl⟩⟩ hno
  obtain ⟨p, c, q, hsplit, hc, hrun⟩ :=
    exponentRun_stops (u := rest) hd.1 hd.2 (Nat.not_lt.mp hread)
  have hu : NoDigit (e :: (sg ++ (d ++ rest))) ∧ (e :: (sg ++ (d ++ rest))).head? ≠ some 46 := by
    rcases he with rfl | rfl
    · exact ⟨noDigit_cons (by decide), by simp⟩
    · exact ⟨noDigit_cons (by decide), by simp⟩
  obtain ⟨i, s, hi, hs, hdrop, hlength⟩ := atod_mantissa signed digits fraction hu.1 hu.2
  have hwhole : sign ++ (int ++ (frac ++ e :: (sg ++ d))) ++ rest = s := by
    rw [hs]
    simp only [List.append_assoc, List.cons_append]
  have hfront : sign ++ (int ++ (frac ++ e :: (sg ++ d))) =
      sign ++ (int ++ (frac ++ e :: (sg ++ p))) ++ c :: q := by
    rw [hsplit]
    simp only [List.append_assoc, List.cons_append]
  obtain ⟨b', p', hp⟩ : ∃ b' p', sign ++ (int ++ (frac ++ e :: (sg ++ p))) = b' :: p' :=
    List.exists_cons_of_ne_nil (by simp)
  have hread : atodLength (sign ++ (int ++ (frac ++ e :: (sg ++ d))) ++ rest) = p'.length + 1 := by
    have hcount := congrArg List.length hp
    rw [hwhole, hlength, atod_scale he hsg hd hdrop hrun, hi]
    simp only [List.length_append, List.length_cons] at hcount ⊢
    omega
  refine ⟨b', p', c, q, by rw [hfront, hp, List.cons_append], ?_, hc, hread⟩
  rw [hfront, hp, List.cons_append] at ht
  rwa [(List.cons.inj ht).1]

private theorem step_digit (key s : Bytes) (expecting : r.expecting = .commaOrEoo)
    (hc : isDigit c = true) :
    isWs c = false ∧ step key r c s = .done .invalid := by
  have hstop : ∀ b : UInt8, isDigit b = false → c ≠ b := by
    rintro b hdigit rfl
    rw [hdigit] at hc
    cases hc
  constructor
  · simp [isWs, hstop 32 (by decide), hstop 9 (by decide), hstop 10 (by decide), hstop 13 (by decide)]
  · rw [step, expecting]
    dsimp only
    unfold stepCommaOrEoo
    split
    · rfl
    · rw [if_neg (hstop 44 (by decide)),
        if_neg fun h => h.elim (hstop 93 (by decide)) (hstop 125 (by decide))]

/-- The digit that stands behind such a number ends the search. -/
private theorem loop_unreadable (expecting : r.expecting = .value) (h : AnyNumber t)
    (hno : ¬Number Readable t) : Dull (loop key r 0 (t ++ rest)) := by
  obtain ⟨b, p, c, q, rfl, hb, hc, hlength⟩ := atodLength_stops rest h hno
  have hsplit : b :: (p ++ c :: q) ++ rest = b :: p ++ c :: (q ++ rest) := by simp
  rw [hsplit] at hlength ⊢
  obtain ⟨hblank, hstep⟩ := stepValue_number (r := r) (s := p ++ c :: (q ++ rest)) hb
  rw [loop_token expecting hblank (hstep.trans (congrArg (passValue _ _) hlength)), afterValue]
  split
  · intro tok htok hquote
    obtain rfl := Lookup.found.inj htok
    obtain rfl := Option.some.inj hquote
    exact absurd hb (by decide)
  · obtain ⟨hws, hinvalid⟩ := step_digit key (q ++ rest)
      (r := { marked r (b :: p ++ c :: (q ++ rest)) with expecting := .commaOrEoo }) rfl hc
    rw [loop_cons hws, hinvalid]
    intro tok htok
    cases htok

end Numbers

section Values

/-- A bracket that goes beyond the limit ends the search. -/
private theorem loop_deep (expecting : r.expecting = .value)
    (full : MG_JSON_MAX_DEPTH ≤ r.nesting.length)
    (hc : c = 123 ∨ c = 91) : Dull (loop key r 0 (c :: s)) := by
  have hfull : MG_JSON_MAX_DEPTH ≤ (marked r (c :: s)).nesting.length := by rwa [marked_nesting]
  have hws : isWs c = false := by
    rcases hc with rfl | rfl
    · decide
    · decide
  have hstep : step key r c s = .done .tooDeep := by
    rw [step, expecting]
    rcases hc with rfl | rfl
    · exact if_pos hfull
    · exact if_pos hfull
  rw [loop_cons hws, hstep]
  intro tok htok
  cases htok

/-- What becomes of a part of a text: the reader can pass over it in the room that is left, or finds no
string in it or behind it. -/
def Fate (key t : Bytes) : Kind → Prop
  | .value => ∀ (r : Reader) (rest : Bytes), r.expecting = .value → r.entered = true →
      r.nesting ≠ [] → r.nesting.length ≤ MG_JSON_MAX_DEPTH → Follow rest →
      Derives (Number Readable) .value (MG_JSON_MAX_DEPTH - r.nesting.length) t ∨
        Dull (loop key r 0 (t ++ rest))
  | .elements => ∀ (r : Reader) (up rest : Bytes), r.expecting = .value → r.entered = true →
      r.nesting = 91 :: up → up ≠ [] → r.nesting.length ≤ MG_JSON_MAX_DEPTH →
      Derives (Number Readable) .elements (MG_JSON_MAX_DEPTH - r.nesting.length) t ∨
        Dull (loop key r 0 (t ++ 93 :: rest))
  | .members ms => ∀ (r : Reader) (up rest : Bytes), r.expecting = .key → r.entered = true →
      r.nesting = 123 :: up → up ≠ [] → r.nesting.length ≤ MG_JSON_MAX_DEPTH →
      Derives (Number Readable) (.members ms) (MG_JSON_MAX_DEPTH - r.nesting.length) t ∨
        Dull (loop key r 0 (t ++ 125 :: rest))

/-- A container, by what is inside. -/
private theorem fate_container {kind : Kind} (expecting : r.expecting = .value)
    (entered : r.entered = true)
    (hc : c = 123 ∨ c = 91)
    (build : ∀ n, Derives (Number Readable) kind n t →
      Derives (Number Readable) .value (n + 1) (c :: (t ++ [c + 2])))
    (inner : r.nesting.length < MG_JSON_MAX_DEPTH → ∀ u,
      Derives (Number Readable) kind (MG_JSON_MAX_DEPTH - (r.nesting.length + 1)) t ∨
        Dull (loop key (opened r u c) 0 (t ++ (c + 2) :: rest))) :
    Derives (Number Readable) .value (MG_JSON_MAX_DEPTH - r.nesting.length) (c :: (t ++ [c + 2])) ∨
      Dull (loop key r 0 (c :: (t ++ [c + 2]) ++ rest)) := by
  by_cases room : r.nesting.length < MG_JSON_MAX_DEPTH
  · rcases inner room (c :: (t ++ [c + 2]) ++ rest) with hderives | hdull
    · have hroom : MG_JSON_MAX_DEPTH - (r.nesting.length + 1) + 1 =
          MG_JSON_MAX_DEPTH - r.nesting.length := by omega
      have hwhole := build _ hderives
      rw [hroom] at hwhole
      exact Or.inl hwhole
    · have hsplit : c :: (t ++ [c + 2]) ++ rest = c :: (t ++ (c + 2) :: rest) := by simp
      rw [hsplit] at hdull ⊢
      rw [loop_open expecting entered room hc]
      exact Or.inr hdull
  · exact Or.inr (loop_deep expecting (Nat.not_lt.mp room) hc)

private theorem fate (h : Derives AnyNumber k n t) : Fate key t k := by
  induction h with
  | null => exact fun _ _ _ _ _ _ _ => Or.inl .null
  | true => exact fun _ _ _ _ _ _ _ => Or.inl .true
  | false => exact fun _ _ _ _ _ _ _ => Or.inl .false
  | @number n t h =>
    intro r rest expecting entered inside room follow
    by_cases hread : Number Readable t
    · exact Or.inl (.number hread)
    · exact Or.inr (loop_unreadable expecting h hread)
  | string h => exact fun _ _ _ _ _ _ _ => Or.inl (.string h)
  | emptyArray blank =>
    intro r rest expecting entered inside room follow
    by_cases hroom : r.nesting.length < MG_JSON_MAX_DEPTH
    · obtain ⟨e, he⟩ := Nat.exists_eq_add_of_lt (Nat.sub_pos_of_lt hroom)
      rw [he, Nat.zero_add]
      exact Or.inl (.emptyArray blank)
    · exact Or.inr (loop_deep expecting (Nat.not_lt.mp hroom) (Or.inr rfl))
  | array h ih =>
    intro r rest expecting entered inside room follow
    refine fate_container (c := 91) expecting entered (Or.inr rfl) (fun _ h => .array h)
      fun hroom u => ?_
    have hnesting : (opened r u 91).nesting = 91 :: r.nesting := congrArg (List.cons 91) marked_nesting
    have hinner := ih (opened r u 91) r.nesting rest rfl (marked_entered.trans entered) hnesting inside
    rw [hnesting, List.length_cons] at hinner
    exact hinner hroom
  | emptyObject blank =>
    intro r rest expecting entered inside room follow
    by_cases hroom : r.nesting.length < MG_JSON_MAX_DEPTH
    · obtain ⟨e, he⟩ := Nat.exists_eq_add_of_lt (Nat.sub_pos_of_lt hroom)
      rw [he, Nat.zero_add]
      exact Or.inl (.emptyObject blank)
    · exact Or.inr (loop_deep expecting (Nat.not_lt.mp hroom) (Or.inl rfl))
  | @object _ ms m h ih =>
    intro r rest expecting entered inside room follow
    refine fate_container (c := 123) expecting entered (Or.inl rfl)
      (fun n (hm : Derives (Number Readable) (.members ms) n m) => .object hm) fun hroom u => ?_
    have hnesting : (opened r u 123).nesting = 123 :: r.nesting :=
      congrArg (List.cons 123) marked_nesting
    have hinner := ih (opened r u 123) r.nesting rest rfl (marked_entered.trans entered) hnesting inside
    rw [hnesting, List.length_cons] at hinner
    exact hinner hroom
  | element left h right ih =>
    intro r up rest expecting entered nesting inside room
    have hvalue := ih r _ expecting entered (nesting ▸ List.cons_ne_nil 91 up) room
      (follow_blank (s := rest) right (Or.inr (Or.inl rfl)))
    rw [List.append_assoc, List.append_assoc, loop_blank left]
    exact hvalue.imp_left fun hv => .element left hv right
  | @elements d w v w' e left h right more ih ihrest =>
    intro r up rest expecting entered nesting inside room
    have hne : r.nesting ≠ [] := nesting ▸ List.cons_ne_nil 91 up
    have hdeep := deep_of_nesting entered nesting inside
    have hfollow : Follow (w' ++ 44 :: (e ++ 93 :: rest)) := follow_blank right (Or.inl rfl)
    simp only [List.append_assoc, List.cons_append]
    rw [loop_blank left]
    rcases ih r _ expecting entered hne room hfollow with hv | hdull
    · have hpass : Passes key _ v .value := passes hv
      have hcomma : loop key { r with expecting := .commaOrEoo } 0 (44 :: (e ++ 93 :: rest)) = _ :=
        loop_comma rfl nesting
      have hsame : ({ r with expecting := .value } : Reader) = r := by rw [← expecting]
      rw [hpass r _ expecting entered hne (by omega) hfollow, afterValue_deep hdeep, loop_blank right,
        hcomma]
      have hmore := ihrest r up rest expecting entered nesting inside room
      refine hmore.imp (fun he => .elements left hv right he) fun hdull => ?_
      rw [← hsame] at hdull
      exact hdull
    · exact Or.inr hdull
  | member left name before after h right ih =>
    intro r up rest expecting entered nesting inside room
    have hdeep := deep_of_nesting entered nesting inside
    have hvalue := ih { r with expecting := .value } _ rfl entered (nesting ▸ List.cons_ne_nil 123 up)
      room (follow_blank (s := rest) right (Or.inr (Or.inr rfl)))
    simp only [List.append_assoc, List.cons_append]
    rw [loop_member_deep expecting entered hdeep left name before after]
    exact hvalue.imp_left fun hv => .member left name before after hv right
  | @members d w n x y v w' m ms left name before after h right more ih ihmore =>
    intro r up rest expecting entered nesting inside room
    have hne : r.nesting ≠ [] := nesting ▸ List.cons_ne_nil 123 up
    have hdeep := deep_of_nesting entered nesting inside
    have hvalueDeep : ({ r with expecting := .value } : Reader).atDepth = Bool.false := hdeep
    have hfollow : Follow (w' ++ 44 :: (m ++ 125 :: rest)) := follow_blank right (Or.inl rfl)
    simp only [List.append_assoc, List.cons_append]
    rw [loop_member_deep expecting entered hdeep left name before after]
    rcases ih { r with expecting := .value } _ rfl entered hne room hfollow with hv | hdull
    · have hpass : Passes key _ v .value := passes hv
      have hcomma : loop key { r with expecting := .commaOrEoo } 0 (44 :: (m ++ 125 :: rest)) = _ :=
        loop_comma rfl nesting
      have hsame : ({ r with expecting := .key } : Reader) = r := by rw [← expecting]
      have hroom : r.nesting.length + (MG_JSON_MAX_DEPTH - r.nesting.length) ≤ MG_JSON_MAX_DEPTH := by
        omega
      rw [hpass { r with expecting := .value } _ rfl entered hne hroom hfollow,
        afterValue_deep hvalueDeep, loop_blank right, hcomma]
      have hmore := ihmore r up rest expecting entered nesting inside room
      refine hmore.imp (fun hm => .members left name before after hv right hm) fun hdull => ?_
      rw [← hsame] at hdull
      exact hdull
    · exact Or.inr hdull

end Values

section Members

variable {exponent : Bytes → Prop}

theorem reaches_first (key v : Bytes) (ms : List (Bytes × Bytes)) : Reaches key ((key, v) :: ms) w ↔ w = v := by
  constructor
  · rintro ⟨front, back, heq, hfront⟩
    cases front with
    | nil =>
      obtain ⟨hpair, _⟩ := List.cons.inj heq
      exact (congrArg Prod.snd hpair).symm
    | cons m front =>
      obtain ⟨rfl, _⟩ := List.cons.inj heq
      exact absurd rfl (hfront _ List.mem_cons_self).1
  · rintro rfl
    exact ⟨[], ms, rfl, fun m hm => absurd hm List.not_mem_nil⟩

theorem reaches_cons {m : Bytes} (hm : m ≠ key) :
    Reaches key ((m, v) :: ms) w ↔ Followable v ∧ Reaches key ms w := by
  constructor
  · rintro ⟨front, back, heq, hfront⟩
    cases front with
    | nil =>
      obtain ⟨hpair, _⟩ := List.cons.inj heq
      exact absurd (congrArg Prod.fst hpair) hm
    | cons m' front =>
      obtain ⟨rfl, hrest⟩ := List.cons.inj heq
      obtain ⟨hhead, htail⟩ := List.forall_mem_cons.mp hfront
      exact ⟨hhead.2, front, back, hrest, htail⟩
  · rintro ⟨hv, front, back, rfl, hfront⟩
    exact ⟨(m, v) :: front, back, rfl, List.forall_mem_cons.mpr ⟨⟨hm, hv⟩, hfront⟩⟩

private theorem not_reaches_nil : ¬Reaches key [] w := by
  rintro ⟨front, back, heq, _⟩
  cases front with
  | nil => cases heq
  | cons m front => cases heq

/-- A string is no obstacle. -/
private theorem followable_string (h : Derives (Number exponent) .value n v) (hno : ¬Followable v) :
    v.head? ≠ some 34 := by
  intro hquote
  obtain ⟨c, u, rfl⟩ := List.exists_cons_of_ne_nil (value_ne_nil h)
  obtain rfl := Option.some.inj hquote
  obtain ⟨b, hb, heq⟩ := value_string h
  rw [heq] at hno
  exact hno (.string hb)

/-- What a search for the first member of a name gives. -/
structure Finds (key : Bytes) (ms : List (Bytes × Bytes)) (l : Lookup) : Prop where
  reached : ∀ v, Reaches key ms v → l = .found v ∨ (v.head? ≠ some 34 ∧ Dull l)
  missed : (∀ v, ¬Reaches key ms v) → Dull l

/-- A member whose value the reader cannot pass over ends the search. -/
private theorem search_blocked {w x y : Bytes} {m : Bytes} (searching : Searching r)
    (expecting : r.expecting = .key) (left : Blank w) (name : Body m) (before : Blank x)
    (after : Blank y) (h : Derives AnyNumber .value n v) (hno : ¬Followable v) (follow : Follow rest) :
    Dull (loop key r 0 (w ++ 34 :: (m ++ 34 :: (x ++ 58 :: (y ++ (v ++ rest)))))) := by
  have hfresh : (r.atDepth && r.matched) = false := by
    rw [searching.unmatched, Bool.and_false]
  have hlength : r.nesting.length = 1 := by rw [searching.nesting]; rfl
  rw [loop_member expecting searching.entered hfresh left name before after]
  have hroom : r.nesting.length ≤ MG_JSON_MAX_DEPTH := by
    rw [hlength]
    decide
  have hfate : Fate key v .value := fate h
  rcases hfate { r with expecting := .value, matched := r.matched || (r.atDepth && m = key) } rest rfl
    searching.entered (searching.nesting ▸ List.cons_ne_nil 123 []) hroom follow with hv | hdull
  · have hleft : MG_JSON_MAX_DEPTH - r.nesting.length = 29 := by rw [hlength]; rfl
    dsimp only at hv
    rw [hleft] at hv
    exact absurd hv hno
  · exact hdull

private theorem finds_blocked {m : Bytes} {l : Lookup} (h : Derives AnyNumber .value n v)
    (hno : ¬Followable v)
    (hdull : Dull l) : Finds key ((m, v) :: ms) l := by
  refine ⟨fun w hw => Or.inr ⟨?_, hdull⟩, fun _ => hdull⟩
  by_cases hm : m = key
  · subst hm
    rw [(reaches_first _ _ _).mp hw]
    exact followable_string h hno
  · exact absurd ((reaches_cons hm).mp hw).1 hno

private theorem finds_first {l : Lookup} (hl : l = .found v) : Finds key ((key, v) :: ms) l := by
  refine ⟨fun w hw => Or.inl ?_, fun hno => absurd ((reaches_first _ _ _).mpr rfl) (hno v)⟩
  rw [hl, (reaches_first _ _ _).mp hw]

private theorem finds_next {m : Bytes} {l : Lookup} (hm : m ≠ key) (hv : Followable v)
    (h : Finds key ms l) :
    Finds key ((m, v) :: ms) l :=
  ⟨fun w hw => h.reached w ((reaches_cons hm).mp hw).2,
    fun hno => h.missed fun w hw => hno w ((reaches_cons hm).mpr ⟨hv, hw⟩)⟩

private theorem finds_nil {l : Lookup} (hdull : Dull l) : Finds key [] l :=
  ⟨fun _ hw => absurd hw not_reaches_nil, fun _ => hdull⟩

private theorem top_members (h : Derives AnyNumber k n t) : ∀ ms, k = .members ms → ∀ r : Reader,
    Searching r → r.expecting = .key → Finds key ms (loop key r 0 (t ++ 125 :: rest)) := by
  induction h with
  | @member d w n x y v w' left name before after h right =>
    intro ms hk r searching expecting
    obtain rfl := Kind.members.inj hk
    simp only [List.append_assoc, List.cons_append]
    have hfollow : Follow (w' ++ 125 :: rest) := follow_blank right (Or.inr (Or.inr rfl))
    by_cases hv : Followable v
    · rcases search_member key searching expecting left name before after hv (by decide)
        hfollow with ⟨hn, hfound⟩ | ⟨hn, r', hsearching, hexpecting, hgo⟩
      · rw [hn] at hfound ⊢
        exact finds_first hfound
      · rw [hgo, loop_blank right,
          loop_end hexpecting hsearching.entered hsearching.nesting hsearching.unmatched]
        exact finds_next hn hv (finds_nil fun tok htok => by cases htok)
    · exact finds_blocked h hv (search_blocked searching expecting left name before after h hv hfollow)
  | @members d w n x y v w' m ms left name before after h right more _ ih =>
    intro ms' hk r searching expecting
    obtain rfl := Kind.members.inj hk
    simp only [List.append_assoc, List.cons_append]
    have hfollow : Follow (w' ++ 44 :: (m ++ 125 :: rest)) := follow_blank right (Or.inl rfl)
    by_cases hv : Followable v
    · rcases search_member key searching expecting left name before after hv (by decide)
        hfollow with ⟨hn, hfound⟩ | ⟨hn, r', hsearching, hexpecting, hgo⟩
      · rw [hn] at hfound ⊢
        exact finds_first hfound
      · rw [hgo, loop_blank right, loop_comma hexpecting hsearching.nesting]
        exact finds_next hn hv
          (ih ms rfl _ ⟨hsearching.entered, hsearching.nesting, hsearching.unmatched⟩ rfl)
    · exact finds_blocked h hv (search_blocked searching expecting left name before after h hv hfollow)
  | _ =>
    intro ms hk
    cases hk

private theorem loop_finds (key : Bytes) (h : IsObject t ms) :
    Finds key ms (loop key .initial 0 t) := by
  obtain ⟨d, h⟩ := h
  cases h with
  | empty left inner right =>
    rw [loop_empty left inner right]
    exact finds_nil fun tok htok => by cases htok
  | @full w m w' ms left h right =>
    rw [loop_enter left]
    exact top_members h ms rfl _ ⟨rfl, rfl, rfl⟩ rfl

/-- In any object the reader gives the string of the first member of a name, as it is written, when it
can pass over what stands before, and otherwise nothing. -/
theorem getStr_reaches {path : String} (hpath : ascii path = 36 :: 46 :: key) (h : IsObject t ms)
    (short : t.length < 2 ^ 31) : (∀ v, Reaches key ms v → mgJsonGetStr t path = readString v) ∧
      ((∀ v, ¬Reaches key ms v) → mgJsonGetStr t path = none) := by
  have hdollar : ¬(ascii path).head? ≠ some 36 := by
    rw [hpath]
    exact fun h => h rfl
  have hget : mgJsonGet t path = loop key .initial 0 t := by
    rw [mgJsonGet, if_neg hdollar, hpath, take_intLength short]
    rfl
  have hfinds := loop_finds key h
  have hdull : Dull (loop key .initial 0 t) → mgJsonGetStr t path = none := by
    intro hno
    unfold mgJsonGetStr
    rw [hget]
    split
    · rename_i tok htok
      exact if_neg fun hstring => hno tok htok hstring.2
    · rfl
  refine ⟨fun v hv => ?_, fun hno => hdull (hfinds.missed hno)⟩
  rcases hfinds.reached v hv with hfound | ⟨hquote, hno⟩
  · rw [mgJsonGetStr, hget, hfound]
    rfl
  · rw [hdull hno, (readString_other hquote).1]

end Members

end Cyctron.Mongoose.Reach
