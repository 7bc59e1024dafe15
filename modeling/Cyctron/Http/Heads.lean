/- Cyctron/Http/Heads
   digest: Heads written line by line, and what mg_http_parse reads back from them. -/

import Cyctron.Http.Parse
import Cyctron.Mongoose.Decimal

set_option autoImplicit false
set_option relaxedAutoImplicit false

namespace Cyctron.Http.Heads

open Cyctron.Base.CString Cyctron.Http.Parse Cyctron.Mongoose.Query

/-- The visible characters. -/
def wordByte (c : UInt8) : Bool := 32 < c && c ≤ 126

/-- The bytes that stand in a line. -/
def lineByte (c : UInt8) : Bool := isok c && c ≠ 10 && c ≠ 13

/-- A header whose value has no blanks around it; behind the value spaces may stand. -/
structure Header where
  name : Bytes
  value : Bytes
  trail : Nat
  named : name ≠ []
  word : ∀ c ∈ name, wordByte c = true ∧ c ≠ 58
  line : ∀ c ∈ value, lineByte c = true
  begins : ∀ c ∈ value.head?, blank c = false
  ends : ∀ c ∈ value.getLast?, blank c = false
  solid : value = [] → trail = 0

def crlf : Bytes := [13, 10]

/-- What stands in the line of a header. -/
def Header.content (h : Header) : Bytes :=
  h.name ++ 58 :: 32 :: (h.value ++ List.replicate h.trail 32)

def Header.text (h : Header) : Bytes := h.content ++ crlf

def Header.pair (h : Header) : Bytes × Bytes := (h.name, h.value)

/-- What may stand as the value of a header. -/
def Value (v : Bytes) : Prop :=
  (∀ c ∈ v, lineByte c = true) ∧ (∀ c ∈ v.head?, blank c = false) ∧ ∀ c ∈ v.getLast?, blank c = false

/-- What may stand as its name. -/
def Name (n : Bytes) : Prop := n ≠ [] ∧ ∀ c ∈ n, wordByte c = true ∧ c ≠ 58

/-- The two conditions as checks. -/
def isValue (v : Bytes) : Bool :=
  v.all lineByte && (v.head?.all fun c => !blank c) && v.getLast?.all fun c => !blank c

def isName (n : Bytes) : Bool := !n.isEmpty && n.all fun c => wordByte c && c ≠ 58

/-- A header without spaces behind its value. -/
def Header.plain {name value : Bytes} (named : Name name) (h : Value value) : Header :=
  ⟨name, value, 0, named.1, named.2, h.1, h.2.1, h.2.2, fun _ => rfl⟩

/-- The first line of a head: two words, and what is left. -/
structure Start where
  first : Bytes
  second : Bytes
  third : Bytes
  firstNe : first ≠ []
  secondNe : second ≠ []
  firstWord : ∀ c ∈ first, wordByte c = true
  secondWord : ∀ c ∈ second, wordByte c = true
  line : ∀ c ∈ third, lineByte c = true
  begins : ∀ c ∈ third.head?, c ≠ 32

def Start.content (s : Start) : Bytes := s.first ++ 32 :: (s.second ++ 32 :: s.third)

/-- The head without its last line. -/
def headText (s : Start) (hs : List Header) : Bytes := s.content ++ crlf ++ hs.flatMap Header.text

section Lines

variable {l rest : Bytes} {b a : UInt8} {i : Nat} {h : Header} {hs : List Header} {s : Start}

theorem lineByte_word {c : UInt8} (h : wordByte c = true) : lineByte c = true := by
  rw [wordByte, Bool.and_eq_true, decide_eq_true_eq, decide_eq_true_eq, UInt8.lt_iff_toNat_lt,
    UInt8.le_iff_toNat_le] at h
  have hok : isok c = true := by
    rw [isok, Bool.or_eq_true, decide_eq_true_eq, UInt8.le_iff_toNat_le]
    exact Or.inr (Nat.le_of_lt h.1)
  have h10 : c ≠ 10 := by
    rintro rfl
    exact absurd h.1 (by decide)
  have h13 : c ≠ 13 := by
    rintro rfl
    exact absurd h.1 (by decide)
  rw [lineByte, hok, decide_eq_true h10, decide_eq_true h13]
  rfl

theorem not_blank_word {c : UInt8} (h : wordByte c = true) : blank c = false := by
  rw [blank, Bool.or_eq_false_iff]
  refine ⟨decide_eq_false ?_, decide_eq_false ?_⟩
  · rintro rfl
    exact absurd h (by decide)
  · rintro rfl
    exact absurd h (by decide)

private theorem lineByte_ok {c : UInt8} (h : lineByte c = true) : isok c = true ∧ c ≠ 10 ∧ c ≠ 13 := by
  rw [lineByte, Bool.and_eq_true, Bool.and_eq_true, decide_eq_true_eq, decide_eq_true_eq] at h
  exact ⟨h.1.1, h.1.2, h.2⟩

private theorem lineByte_blank {c : UInt8} (h : c = 32 ∨ c = 58) : lineByte c = true := by
  rcases h with rfl | rfl
  · decide
  · decide

theorem value_of_check {v : Bytes} (h : isValue v = true) : Value v := by
  rw [isValue, Bool.and_eq_true, Bool.and_eq_true, Option.all_eq_true, Option.all_eq_true] at h
  obtain ⟨⟨hall, hhead⟩, hlast⟩ := h
  refine ⟨List.all_eq_true.mp hall, fun c hc => ?_, fun c hc => ?_⟩
  · exact Bool.eq_false_of_not_eq_true' (hhead c hc)
  · exact Bool.eq_false_of_not_eq_true' (hlast c hc)

theorem name_of_check {n : Bytes} (h : isName n = true) : Name n := by
  rw [isName, Bool.and_eq_true] at h
  refine ⟨fun hnil => ?_, fun c hc => ?_⟩
  · rw [hnil] at h
    exact absurd h.1 (by decide)
  · have hword := List.all_eq_true.mp h.2 c hc
    rw [Bool.and_eq_true, decide_eq_true_eq] at hword
    exact hword

private theorem Header.content_line (h : Header) : ∀ c ∈ h.content, lineByte c = true := by
  intro c hc
  rw [Header.content, List.mem_append, List.mem_cons, List.mem_cons, List.mem_append] at hc
  rcases hc with hc | rfl | rfl | hc | hc
  · exact lineByte_word (h.word c hc).1
  · exact lineByte_blank (Or.inr rfl)
  · exact lineByte_blank (Or.inl rfl)
  · exact h.line c hc
  · exact lineByte_blank (Or.inl (List.eq_of_mem_replicate hc))

private theorem Header.content_ne (h : Header) : h.content ≠ [] := by
  rw [Header.content]
  exact List.append_ne_nil_of_left_ne_nil h.named _

private theorem Start.content_line (s : Start) : ∀ c ∈ s.content, lineByte c = true := by
  intro c hc
  rw [Start.content, List.mem_append, List.mem_cons, List.mem_append, List.mem_cons] at hc
  rcases hc with hc | rfl | hc | rfl | hc
  · exact lineByte_word (s.firstWord c hc)
  · exact lineByte_blank (Or.inl rfl)
  · exact lineByte_word (s.secondWord c hc)
  · exact lineByte_blank (Or.inl rfl)
  · exact s.line c hc

private theorem Start.content_ne (s : Start) : s.content ≠ [] := by
  rw [Start.content]
  exact List.append_ne_nil_of_left_ne_nil s.firstNe _

theorem value_words {v : Bytes} (h : ∀ c ∈ v, wordByte c = true) : Value v :=
  ⟨fun c hc => lineByte_word (h c hc), fun c hc => not_blank_word (h c (List.mem_of_mem_head? hc)),
    fun c hc => not_blank_word (h c (List.mem_of_mem_getLast? hc))⟩

/-- A value may have a blank between two words. -/
theorem value_pair {v w : Bytes} (hv : ∀ c ∈ v, wordByte c = true) (hw : ∀ c ∈ w, wordByte c = true)
    (hne : v ≠ []) (hne' : w ≠ []) : Value (v ++ 32 :: w) := by
  refine ⟨fun c hc => ?_, fun c hc => ?_, fun c hc => ?_⟩
  · rw [List.mem_append, List.mem_cons] at hc
    rcases hc with hc | rfl | hc
    · exact lineByte_word (hv c hc)
    · exact lineByte_blank (Or.inl rfl)
    · exact lineByte_word (hw c hc)
  · rw [List.head?_append_of_ne_nil _ hne] at hc
    exact not_blank_word (hv c (List.mem_of_mem_head? hc))
  · rw [List.getLast?_append_of_ne_nil _ (List.cons_ne_nil 32 w),
      List.getLast?_cons_of_ne_nil hne'] at hc
    exact not_blank_word (hw c (List.mem_of_mem_getLast? hc))

/-- Only a line feed ends a head. -/
private theorem requestLenLoop_step {c : UInt8} (hok : isok c = true) (h10 : c ≠ 10) :
    requestLenLoop i b a (c :: rest) = requestLenLoop (i + 1) a c rest := by
  rw [requestLenLoop, if_neg (by rw [hok]; decide), if_neg]
  rintro (⟨-, h, -⟩ | ⟨-, h, -⟩)
  · exact h10 h
  · exact h10 h

/-- Within a line the head does not end. -/
private theorem requestLenLoop_line (hl : ∀ c ∈ l, lineByte c = true) (hne : l ≠ []) :
    requestLenLoop i b a (l ++ crlf ++ rest) = requestLenLoop (i + l.length + 2) 13 10 rest := by
  induction l generalizing i b a with
  | nil => exact absurd rfl hne
  | cons c l ih =>
    obtain ⟨hok, h10, -⟩ := lineByte_ok (hl c List.mem_cons_self)
    rw [List.cons_append, List.cons_append, requestLenLoop_step hok h10]
    cases l with
    | nil =>
      change requestLenLoop (i + 1) a c (13 :: 10 :: rest) = _
      rw [requestLenLoop_step (by decide) (by decide), requestLenLoop, if_neg (by decide), if_neg]
      · rfl
      · rintro (⟨-, -, h⟩ | ⟨-, -, -, h⟩)
        · exact absurd h (by decide)
        · exact h10 h
    | cons d l =>
      rw [ih (fun x hx => hl x (List.mem_cons_of_mem c hx)) (List.cons_ne_nil d l)]
      congr 1
      simp only [List.length_cons]
      omega

private theorem requestLenLoop_headers : requestLenLoop i 13 10 (hs.flatMap Header.text ++ rest) =
    requestLenLoop (i + (hs.flatMap Header.text).length) 13 10 rest := by
  induction hs generalizing i with
  | nil => rfl
  | cons h hs ih =>
    rw [List.flatMap_cons, List.append_assoc, Header.text,
      requestLenLoop_line h.content_line h.content_ne, ih]
    congr 1
    simp only [List.length_append, crlf, List.length_cons, List.length_nil]
    omega

/-- The head ends behind its empty line. -/
private theorem requestLen_text (s : Start) (hs : List Header) (rest : Bytes) :
    mgHttpGetRequestLen (headText s hs ++ crlf ++ rest) = ((headText s hs ++ crlf).length : Nat) := by
  have hpos := List.length_pos_of_ne_nil s.content_ne
  rw [mgHttpGetRequestLen, headText, List.append_assoc, List.append_assoc,
    requestLenLoop_line s.content_line s.content_ne, requestLenLoop_headers]
  change requestLenLoop _ 13 10 (13 :: 10 :: rest) = _
  rw [requestLenLoop_step (by decide) (by decide), requestLenLoop, if_neg (by decide), if_pos]
  · simp only [List.length_append, crlf, List.length_cons, List.length_nil]
    omega
  · exact Or.inr ⟨by omega, rfl, rfl, rfl⟩

end Lines

section Words

variable {w l rest t : Bytes} {stop : Option UInt8} {h : Header} {hs : List Header} {s : Start}

private theorem clen_word {c : UInt8} (hc : wordByte c = true) (rest : Bytes) :
    clen (c :: rest) = 1 := by
  rw [wordByte, Bool.and_eq_true, decide_eq_true_eq, decide_eq_true_eq] at hc
  rw [clen, if_pos hc]

private theorem clen_space (rest : Bytes) : clen (32 :: rest) = 0 := by
  rw [clen, if_neg (by decide), if_neg (fun h => absurd h.1 (by decide)),
    if_neg (fun h => absurd h.1 (by decide)), if_neg (fun h => absurd h.1 (by decide))]

private theorem word_text (hw : ∀ c ∈ w, wordByte c = true ∧ some c ≠ stop)
    (ht : ∀ c ∈ t.head?, some c = stop ∨ clen t = 0) : word stop (w ++ t) = (w, t) := by
  rw [word]
  induction w with
  | nil =>
    rw [List.nil_append]
    cases t with
    | nil => rfl
    | cons c t =>
      rw [wordLoop]
      split
      · rfl
      · next hstop => rw [(ht c rfl).resolve_left hstop]
  | cons c w ih =>
    obtain ⟨hc, hstop⟩ := hw c List.mem_cons_self
    rw [List.cons_append, wordLoop, if_neg hstop, clen_word hc]
    dsimp only
    rw [ih fun x hx => hw x (List.mem_cons_of_mem c hx)]

/-- A word without a stop ends at a space. -/
private theorem word_space (hw : ∀ c ∈ w, wordByte c = true) (t : Bytes) :
    word none (w ++ 32 :: t) = (w, 32 :: t) :=
  word_text (fun c hc => ⟨hw c hc, Option.some_ne_none c⟩) fun _ _ => Or.inr (clen_space t)

private theorem skiptorn_line (hl : ∀ c ∈ l, lineByte c = true) :
    skiptorn (l ++ crlf ++ rest) = some (l, rest) := by
  have hstay : ∀ c ∈ l, decide (c ≠ 10 ∧ c ≠ 13) = true := fun c hc =>
    decide_eq_true (lineByte_ok (hl c hc)).2
  have htake : (l ++ crlf ++ rest).takeWhile (fun c => decide (c ≠ 10 ∧ c ≠ 13)) = l := by
    rw [List.append_assoc, List.takeWhile_append_of_pos hstay]
    exact List.append_nil l
  have hdrop : (l ++ crlf ++ rest).dropWhile (fun c => decide (c ≠ 10 ∧ c ≠ 13)) = 13 :: 10 :: rest := by
    rw [List.append_assoc, List.dropWhile_append_of_pos hstay]
    rfl
  rw [skiptorn, htake, hdrop]
  rfl

theorem dropWhile_front {p : UInt8 → Bool} (h : ∀ c ∈ l.head?, p c = false) : l.dropWhile p = l := by
  cases l with
  | nil => rfl
  | cons c l => exact List.dropWhile_cons_of_neg (by rw [h c rfl]; decide)

/-- The value of a header loses nothing where its blanks are cut off. -/
private theorem Header.trimmed (h : Header) :
    ((h.value ++ List.replicate h.trail 32).reverse.dropWhile blank).reverse = h.value := by
  have hspaces : ∀ c ∈ List.replicate h.trail (32 : UInt8), blank c = true := by
    intro c hc
    rw [List.eq_of_mem_replicate hc]
    decide
  rw [List.reverse_append, List.reverse_replicate, List.dropWhile_append_of_pos hspaces,
    dropWhile_front, List.reverse_reverse]
  rw [List.head?_reverse]
  exact h.ends

private theorem Header.padded_line (h : Header) :
    ∀ c ∈ h.value ++ List.replicate h.trail 32, lineByte c = true := by
  intro c hc
  refine h.content_line c ?_
  rw [Header.content]
  exact List.mem_append_right _ (List.mem_cons_of_mem _ (List.mem_cons_of_mem _ hc))

private theorem headers_text {room : Nat} (hroom : hs.length < room) (rest : Bytes) :
    mgHttpParseHeaders room (hs.flatMap Header.text ++ crlf ++ rest) = some (hs.map Header.pair) := by
  induction hs generalizing room with
  | nil =>
    obtain ⟨room, rfl⟩ : ∃ n, room = n + 1 := ⟨room - 1, by rw [List.length_nil] at hroom; omega⟩
    change mgHttpParseHeaders (room + 1) (13 :: 10 :: rest) = _
    have hend : (13 :: 10 :: rest).head? = some 10 ∨ (13 :: 10 :: rest).take 2 = [13, 10] := Or.inr rfl
    rw [mgHttpParseHeaders, if_neg (List.cons_ne_nil 13 (10 :: rest)), if_pos hend]
    rfl
  | cons h hs ih =>
    rw [List.length_cons] at hroom
    obtain ⟨room, rfl⟩ : ∃ n, room = n + 1 := ⟨room - 1, by omega⟩
    have hsplit : (h :: hs).flatMap Header.text ++ crlf ++ rest =
        h.name ++ 58 :: (32 :: (h.value ++ List.replicate h.trail 32 ++ crlf ++
          (hs.flatMap Header.text ++ crlf ++ rest))) := by
      simp only [List.flatMap_cons, Header.text, Header.content, List.append_assoc, List.cons_append]
    have hword : word (some 58) ((h :: hs).flatMap Header.text ++ crlf ++ rest) =
        (h.name, 58 :: (32 :: (h.value ++ List.replicate h.trail 32 ++ crlf ++
          (hs.flatMap Header.text ++ crlf ++ rest)))) := by
      rw [hsplit]
      refine word_text (fun c hc => ⟨(h.word c hc).1, fun heq => (h.word c hc).2 (Option.some.inj heq)⟩) ?_
      intro c hc
      exact Or.inl hc.symm
    obtain ⟨c, name, hname⟩ := List.exists_cons_of_ne_nil h.named
    have hc := h.word c (by rw [hname]; exact List.mem_cons_self)
    have hline := lineByte_ok (lineByte_word hc.1)
    have hvalue : ((58 :: (32 :: (h.value ++ List.replicate h.trail 32 ++ crlf ++
        (hs.flatMap Header.text ++ crlf ++ rest)))).drop 1).dropWhile blank =
          h.value ++ List.replicate h.trail 32 ++ crlf ++ (hs.flatMap Header.text ++ crlf ++ rest) := by
      rw [List.drop_one, List.tail_cons, List.dropWhile_cons_of_pos (by decide), dropWhile_front]
      intro x hx
      cases hv : h.value with
      | nil =>
        rw [hv, h.solid hv] at hx
        obtain rfl := Option.some.inj hx
        decide
      | cons y ys =>
        rw [hv] at hx
        exact h.begins x (by rw [hv]; exact hx)
    rw [mgHttpParseHeaders, hword]
    dsimp only
    rw [hvalue, skiptorn_line h.padded_line]
    dsimp only
    rw [ih (Nat.lt_of_succ_lt_succ hroom), h.trimmed, if_neg, if_neg, if_neg]
    · rfl
    · rintro (hnil | hstop)
      · exact h.named hnil
      · exact hstop rfl
    · rw [hsplit, hname]
      rintro (hten | hthirteen)
      · exact hline.2.1 (Option.some.inj hten)
      · exact hline.2.2 (List.cons.inj hthirteen).1
    · rw [hsplit, hname]
      exact List.cons_ne_nil _ _

/-- A head of at most as many headers as there is room for is parsed line by line; whether it has a
length, and which, depends on the header that has the name. -/
theorem parse_text {n : Nat} (few : hs.length < MG_MAX_HTTP_HEADERS)
    (version : httpPrefix s.first = true ∨ versionOk s.third = true)
    (path : s.second.takeWhile (· ≠ 63) ≠ [])
    (sized : (mgHttpGetHeaderIn (hs.map Header.pair) "Content-Length").map mgToSizeT ≠ some none)
    (hn : bodyLength (headText s hs ++ crlf).length (httpPrefix s.first) s.first
      (s.second.takeWhile (· ≠ 63))
      ((mgHttpGetHeaderIn (hs.map Header.pair) "Content-Length").bind mgToSizeT) = some n)
    (rest : Bytes) :
    mgHttpParse (headText s hs ++ crlf ++ rest) =
      .ok ⟨(headText s hs ++ crlf).length, s.first, s.second.takeWhile (· ≠ 63),
        (s.second.dropWhile (· ≠ 63)).drop 1, s.third, hs.map Header.pair, n⟩ := by
  have hpos : 0 < (headText s hs ++ crlf).length := by
    rw [List.length_append]
    exact Nat.lt_of_lt_of_le (by decide) (Nat.le_add_left crlf.length _)
  have hhead : (headText s hs ++ crlf ++ rest).take (headText s hs ++ crlf).length =
      s.first ++ 32 :: (s.second ++ 32 :: (s.third ++ crlf ++ (hs.flatMap Header.text ++ crlf))) := by
    rw [List.take_left]
    simp only [headText, Start.content, List.append_assoc, List.cons_append]
  have hsecond : (32 :: (s.second ++ 32 :: (s.third ++ crlf ++
      (hs.flatMap Header.text ++ crlf)))).dropWhile (· = 32) =
        s.second ++ 32 :: (s.third ++ crlf ++ (hs.flatMap Header.text ++ crlf)) := by
    rw [List.dropWhile_cons_of_pos (by decide), dropWhile_front]
    intro c hc
    obtain ⟨d, w, hw⟩ := List.exists_cons_of_ne_nil s.secondNe
    rw [hw] at hc
    obtain rfl := Option.some.inj hc
    have hvisible := s.secondWord d (by rw [hw]; exact List.mem_cons_self)
    refine decide_eq_false ?_
    rintro rfl
    exact absurd hvisible (by decide)
  have hthird : (32 :: (s.third ++ crlf ++ (hs.flatMap Header.text ++ crlf))).dropWhile (· = 32) =
      s.third ++ crlf ++ (hs.flatMap Header.text ++ crlf) := by
    rw [List.dropWhile_cons_of_pos (by decide), dropWhile_front]
    intro c hc
    cases hw : s.third with
    | nil =>
      rw [hw] at hc
      obtain rfl := Option.some.inj hc
      decide
    | cons d w =>
      rw [hw] at hc
      obtain rfl := Option.some.inj hc
      exact decide_eq_false (s.begins d (by rw [hw]; rfl))
  have hheaders := headers_text few []
  rw [List.append_nil] at hheaders
  rw [mgHttpParse, requestLen_text]
  dsimp only
  rw [if_neg (by omega), Int.toNat_natCast, hhead, word_space s.firstWord]
  dsimp only
  rw [hsecond, word_space s.secondWord]
  dsimp only
  rw [hthird, skiptorn_line s.line]
  dsimp only
  rw [if_neg, if_neg, hheaders]
  · dsimp only
    rw [if_neg sized, hn]
  · rintro (hnil | hnil)
    · exact s.firstNe hnil
    · exact path hnil
  · rintro ⟨hfirst, hthird⟩
    rcases version with h | h
    · rw [h] at hfirst
      cases hfirst
    · rw [h] at hthird
      cases hthird

end Words

end Cyctron.Http.Heads
