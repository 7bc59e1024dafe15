/- Cyctron/Event/Unicode
   digest: Which texts that the escaper writes, and which frames with such texts, are valid UTF-8. -/

import Cyctron.Json.Escape
import Cyctron.Realtime.Messages
import Cyctron.Text.Utf8
import Cyctron.Ws.Replies

set_option autoImplicit false
set_option relaxedAutoImplicit false

namespace Cyctron.Event.Unicode

open Cyctron.Base.CString Cyctron.Event.Format Cyctron.Json.Escape Cyctron.Text.Utf8
open Cyctron.Call.Protocol (escapeByte MgJson)
open Cyctron.Json.Build (decimalInt_ascii)
open Cyctron.Json.Text (utf8)
open Cyctron.Realtime.Model Cyctron.Realtime.Messages Cyctron.Ws.Handler
open Cyctron.Mongoose.Json (mongoose)
open Cyctron.Ws.Bind (deafEnv)
open Cyctron.Ws.Replies (Command command_handled)

/-- Up to the byte whose escape goes beyond the room, if there is one, the string consists of whole
characters, less the control characters that are dropped. -/
def Intact (s : Bytes) (room : Nat) : Prop :=
  ∃ t r, stripped s = encode t ++ r ∧ (escaped (encode t)).length ≤ room ∧
    ∀ c ∈ r.head?, room < (escaped (encode t ++ [c])).length

/-- The longest front of a string whose escapes fit into the room. -/
def front : Nat → Bytes → Bytes
  | _, [] => []
  | room, c :: s =>
    if (escapeByte c).length ≤ room then c :: front (room - (escapeByte c).length) s else []

section Escapes

variable {c : UInt8} {s p r : Bytes} {room n o : Nat}

theorem escaped_cons (c : UInt8) (s : Bytes) : escaped (c :: s) = escapeByte c ++ escaped s := rfl

theorem escaped_append (s p : Bytes) : escaped (s ++ p) = escaped s ++ escaped p :=
  List.flatMap_append

/-- Bytes beyond ASCII stand for themselves. -/
private theorem escapeByte_high (h : 128 ≤ c.toNat) : escapeByte c = [c] ∧ kept c = true := by
  have hlow : ¬c < 32 := by
    rw [UInt8.lt_iff_toNat_lt]
    exact Nat.not_lt.mpr (Nat.le_trans (by decide) h)
  have hne : ∀ d : UInt8, d.toNat < 128 → c ≠ d := by
    rintro d hd rfl
    omega
  constructor
  · unfold escapeByte
    rw [if_neg (hne 34 (by decide)), if_neg (hne 92 (by decide)), if_neg (hne 10 (by decide)),
      if_neg (hne 13 (by decide)), if_neg (hne 9 (by decide)), if_neg hlow]
  · rw [kept, decide_eq_true (UInt8.not_lt.mp hlow)]
    rfl

/-- The escape of ASCII is ASCII. -/
private theorem escapeByte_low (h : c.toNat < 128) : ∀ x ∈ escapeByte c, x.toNat < 128 := by
  unfold escapeByte
  split_ifs <;> simp [h]

private theorem escapeByte_kept (h : kept c = true) : escapeByte c ≠ [] := by
  rcases byte_cases c with ⟨e, he, _⟩ | ⟨he, _⟩ | ⟨_, hno⟩
  · rw [he]
    exact List.cons_ne_nil _ _
  · rw [he]
    exact List.cons_ne_nil _ _
  · rw [h] at hno
    cases hno

private theorem escapeByte_dropped (h : kept c = false) : escapeByte c = [] := by
  rcases byte_cases c with ⟨_, _, _, _, _, hyes⟩ | ⟨_, _, _, _, hyes⟩ | ⟨he, _⟩
  · rw [h] at hyes
    cases hyes
  · rw [h] at hyes
    cases hyes
  · exact he

private theorem escaped_stripped (s : Bytes) : escaped (stripped s) = escaped s := by
  induction s with
  | nil => rfl
  | cons c s ih =>
    rw [escaped_cons, ← ih]
    cases hc : kept c with
    | true =>
      rw [stripped, List.filter_cons_of_pos hc, escaped_cons]
      rfl
    | false =>
      rw [stripped, List.filter_cons_of_neg (by rw [hc]; exact Bool.false_ne_true),
        escapeByte_dropped hc]
      rfl

/-- What the escaper writes is its longest front, escaped. -/
theorem escapeLoop_front (h : o < n) : escapeLoop n o s = escaped (front (n - 1 - o) s) := by
  induction s generalizing o with
  | nil => rfl
  | cons c s ih =>
    have hshort : ∀ r ∈ rep c, r.length = 2 := by
      unfold rep
      split_ifs <;> simp
    rw [escapeLoop, front, rep_eq]
    cases hrep : rep c with
    | some r =>
      dsimp only
      rw [Option.getD_some]
      by_cases hfits : n ≤ o + r.length
      · rw [if_pos hfits, if_neg (by omega)]
        rfl
      · rw [if_neg hfits, if_pos (by omega), ih (by omega), escaped_cons, rep_eq, hrep,
          Option.getD_some, Nat.sub_sub (n - 1) o r.length]
    | none =>
      dsimp only
      rw [Option.getD_none]
      by_cases hlow : c < 32
      · rw [if_pos hlow, if_pos hlow, List.length_nil, if_pos (Nat.zero_le _), ih h, escaped_cons, rep_eq, hrep,
          Option.getD_none, if_pos hlow]
        rfl
      · rw [if_neg hlow, if_neg hlow]
        by_cases hfits : n ≤ o + 1
        · rw [if_pos hfits, if_neg (by rw [List.length_singleton]; omega)]
          rfl
        · rw [if_neg hfits, if_pos (by rw [List.length_singleton]; omega), ih (by omega),
            escaped_cons, rep_eq, hrep, Option.getD_none, if_neg hlow, List.length_singleton,
            Nat.sub_sub (n - 1) o 1]
          rfl

/-- The front is known by its room and by what follows it. -/
private theorem front_unique (hs : s = p ++ r) (hfits : (escaped p).length ≤ room)
    (hnext : ∀ c ∈ r.head?, room < (escaped (p ++ [c])).length) : front room s = p := by
  induction p generalizing s room with
  | nil =>
    rw [hs, List.nil_append]
    cases r with
    | nil => rfl
    | cons c r =>
      have hc := hnext c rfl
      rw [List.nil_append, escaped_cons, List.length_append, escaped, List.flatMap_nil,
        List.length_nil] at hc
      rw [front, if_neg (by omega)]
  | cons c p ih =>
    subst hs
    rw [escaped_cons, List.length_append] at hfits
    rw [List.cons_append, front, if_pos (by omega)]
    refine congrArg (c :: ·) (ih rfl (by omega) fun x hx => ?_)
    have hlong := hnext x hx
    rw [List.cons_append, escaped_cons, List.length_append] at hlong
    omega

theorem front_split (room : Nat) (s : Bytes) : ∃ r, s = front room s ++ r ∧
    (escaped (front room s)).length ≤ room ∧
    ∀ c ∈ r.head?, room < (escaped (front room s ++ [c])).length := by
  induction s generalizing room with
  | nil => exact ⟨[], rfl, Nat.zero_le room, fun c hc => absurd hc (Option.not_mem_none c)⟩
  | cons c s ih =>
    rw [front]
    by_cases hfits : (escapeByte c).length ≤ room
    · rw [if_pos hfits]
      obtain ⟨r, hr, hlength, hnext⟩ := ih (room - (escapeByte c).length)
      refine ⟨r, by rw [List.cons_append, ← hr], ?_, fun x hx => ?_⟩
      · rw [escaped_cons, List.length_append]
        omega
      · have hlong := hnext x hx
        rw [List.cons_append, escaped_cons, List.length_append]
        omega
    · rw [if_neg hfits]
      refine ⟨c :: s, rfl, Nat.zero_le room, fun x hx => ?_⟩
      obtain rfl : c = x := Option.some.inj hx
      rw [List.nil_append, escaped_cons, List.length_append]
      exact Nat.lt_of_lt_of_le (Nat.not_le.mp hfits) (Nat.le_add_right _ _)

/-- A buffer that is cut further keeps the front for what is left, and at most half an escape. -/
theorem take_escaped (k : Nat) (s : Bytes) :
    ∃ h, (escaped s).take k = escaped (front k s) ++ h ∧ (h = [] ∨ h = [92]) := by
  induction s generalizing k with
  | nil => exact ⟨[], List.take_nil, Or.inl rfl⟩
  | cons c s ih =>
    rw [front, escaped_cons]
    by_cases hfits : (escapeByte c).length ≤ k
    · obtain ⟨h, hs, hh⟩ := ih (k - (escapeByte c).length)
      refine ⟨h, ?_, hh⟩
      rw [if_pos hfits, escaped_cons, List.take_append, List.take_of_length_le hfits, hs,
        List.append_assoc]
    · rw [if_neg hfits, List.take_append_of_le_length (by omega)]
      refine ⟨(escapeByte c).take k, rfl, ?_⟩
      rcases byte_cases c with ⟨e, he, _⟩ | ⟨he, _⟩ | ⟨he, _⟩
      · rw [he] at hfits ⊢
        have hk : k = 0 ∨ k = 1 := by
          rw [List.length_cons, List.length_singleton] at hfits
          omega
        rcases hk with rfl | rfl
        · exact Or.inl rfl
        · exact Or.inr rfl
      · rw [he, List.length_singleton] at hfits
        rw [Nat.lt_one_iff.mp (Nat.not_le.mp hfits)]
        exact Or.inl rfl
      · rw [he, List.take_nil]
        exact Or.inl rfl

private theorem front_front (k m : Nat) (s : Bytes) : front k (front m s) = front (min k m) s := by
  induction s generalizing k m with
  | nil => rfl
  | cons c s ih =>
    by_cases hm : (escapeByte c).length ≤ m
    · rw [front, if_pos hm, front, front]
      by_cases hk : (escapeByte c).length ≤ k
      · rw [if_pos hk, if_pos (Nat.le_min.mpr ⟨hk, hm⟩), ih, Nat.sub_min_sub_right]
      · rw [if_neg hk, if_neg fun h => hk (Nat.le_min.mp h).1]
    · rw [front, if_neg hm, front, front, if_neg fun h => hm (Nat.le_min.mp h).2]

end Escapes

section Characters

variable {s p r : Bytes} {room n k : Nat}

private theorem escapeByte_valid_low {c : UInt8} (h : c.toNat < 128) : Valid (escapeByte c) :=
  valid_plain (escapeByte_low h)

/-- Bytes beyond ASCII that stand at the front of an escaped string stand at the front of the
string. -/
private theorem high_front {hs : Bytes} (hhigh : ∀ c ∈ hs, 128 ≤ c.toNat)
    (hkept : ∀ c ∈ s, kept c = true)
    (h : hs <+: escaped s) : ∃ p, s = hs ++ p ∧ escaped s = hs ++ escaped p := by
  induction hs generalizing s with
  | nil => exact ⟨s, rfl, rfl⟩
  | cons x hs ih =>
    obtain ⟨hx, hrest⟩ := List.forall_mem_cons.mp hhigh
    cases s with
    | nil => exact absurd (List.prefix_nil.mp h) (List.cons_ne_nil x hs)
    | cons c s =>
      obtain ⟨hc, hs'⟩ := List.forall_mem_cons.mp hkept
      rw [escaped_cons] at h ⊢
      by_cases hlow : c.toNat < 128
      · obtain ⟨y, ys, hy⟩ := List.exists_cons_of_ne_nil (escapeByte_kept hc)
        rw [hy, List.cons_append, List.cons_prefix_cons] at h
        have hyl := escapeByte_low hlow y (by rw [hy]; exact List.mem_cons_self)
        rw [← h.1] at hyl
        exact absurd hyl (Nat.not_lt.mpr hx)
      · rw [(escapeByte_high (Nat.not_lt.mp hlow)).1, List.singleton_append,
          List.cons_prefix_cons] at h
        obtain ⟨rfl, hpre⟩ := h
        obtain ⟨p, rfl, hp⟩ := ih hrest hs' hpre
        refine ⟨p, rfl, ?_⟩
        rw [(escapeByte_high (Nat.not_lt.mp hlow)).1, hp]
        rfl

private theorem escaped_high (h : ∀ c ∈ s, 128 ≤ c.toNat) : escaped s = s := by
  induction s with
  | nil => rfl
  | cons c s ih =>
    obtain ⟨hc, hs⟩ := List.forall_mem_cons.mp h
    rw [escaped_cons, ih hs, (escapeByte_high hc).1]
    rfl

/-- Without dropped characters, escaping neither makes nor breaks characters. -/
private theorem valid_escaped_kept (hkept : ∀ c ∈ s, kept c = true) : Valid (escaped s) ↔ Valid s := by
  induction hn : s.length using Nat.strong_induction_on generalizing s with
  | _ n ih =>
    cases s with
    | nil => exact iff_of_true ⟨[], rfl⟩ ⟨[], rfl⟩
    | cons c s =>
      obtain ⟨hc, hs⟩ := List.forall_mem_cons.mp hkept
      rw [List.length_cons] at hn
      by_cases hlow : c.toNat < 128
      · have hone : Valid [c] := valid_plain fun x hx => by rwa [List.mem_singleton.mp hx]
        have hcons : c :: s = [c] ++ s := rfl
        rw [escaped_cons, valid_append_iff (escapeByte_valid_low hlow), hcons, valid_append_iff hone]
        exact ih s.length (by omega) hs rfl
      · have hhead := (escapeByte_high (Nat.not_lt.mp hlow)).1
        -- both sides begin with the same character, whose bytes are beyond ASCII
        have hstart : ∀ {u : Bytes}, Valid (c :: u) → ∃ a tl, utf8 (Char.toNat a) = c :: tl ∧
            tl <+: u ∧ ∀ x ∈ tl, 128 ≤ x.toNat := by
          rintro u ⟨t, ht⟩
          cases t with
          | nil => exact absurd ht (List.cons_ne_nil c u)
          | cons a t =>
            obtain ⟨hne, htail⟩ := utf8_tail a.toNat
            obtain ⟨y, tl, hy⟩ := List.exists_cons_of_ne_nil hne
            have hcut : encode (a :: t) = y :: (tl ++ encode t) := by
              have hcons : encode (a :: t) = utf8 a.toNat ++ encode t := rfl
              rw [hcons, hy]
              rfl
            rw [hcut] at ht
            obtain ⟨rfl, hu⟩ := List.cons.inj ht
            rw [hy] at htail
            exact ⟨a, tl, hy, ⟨_, hu.symm⟩, htail⟩
        have hboth : ∀ {a : Char} {tl p : Bytes}, utf8 a.toNat = c :: tl → s = tl ++ p →
            escaped s = tl ++ escaped p → (Valid (c :: escaped s) ↔ Valid (c :: s)) := by
          intro a tl p ha hsp hep
          have hone : Valid (c :: tl) := ⟨[a], by rw [encode, List.flatMap_singleton, ha]⟩
          have hcut : ∀ u : Bytes, c :: (tl ++ u) = (c :: tl) ++ u := fun _ => rfl
          rw [hep, hsp, hcut, hcut, valid_append_iff hone, valid_append_iff hone]
          refine ih p.length ?_ (fun x hx => hs x (hsp ▸ List.mem_append_right tl hx)) rfl
          have hlength := congrArg List.length hsp
          rw [List.length_append] at hlength
          omega
        rw [escaped_cons, hhead, List.singleton_append]
        constructor
        · intro h
          obtain ⟨a, tl, ha, hpre, hhigh⟩ := hstart h
          obtain ⟨p, hsp, hep⟩ := high_front hhigh hs hpre
          exact (hboth ha hsp hep).mp h
        · intro h
          obtain ⟨a, tl, ha, ⟨p, hp⟩, hhigh⟩ := hstart h
          refine (hboth ha hp.symm ?_).mpr h
          rw [← hp, escaped_append, escaped_high hhigh]

private theorem stripped_kept (s : Bytes) :
    ∀ c ∈ stripped s, kept c = true := fun _ hc => List.of_mem_filter hc

private theorem valid_escaped_iff (s : Bytes) : Valid (escaped s) ↔ Valid (stripped s) := by
  rw [← escaped_stripped, valid_escaped_kept (stripped_kept s)]

/-- Dropped characters take no room. -/
private theorem stripped_front (room : Nat) (s : Bytes) :
    stripped (front room s) = front room (stripped s) := by
  induction s generalizing room with
  | nil => rfl
  | cons c s ih =>
    rw [front]
    cases hc : kept c with
    | true =>
      rw [stripped, stripped, List.filter_cons_of_pos hc, front]
      split
      · rw [List.filter_cons_of_pos hc]
        exact congrArg (c :: ·) (ih _)
      · rfl
    | false =>
      have hno : ¬kept c = true := by rw [hc]; exact Bool.false_ne_true
      rw [escapeByte_dropped hc, List.length_nil, if_pos (Nat.zero_le room), stripped, stripped,
        List.filter_cons_of_neg hno, List.filter_cons_of_neg hno]
      exact ih room

/-- The front of a string is valid exactly when the string is intact up to there. -/
private theorem valid_front_iff (s : Bytes) (room : Nat) :
    Valid (escaped (front room s)) ↔ Intact s room := by
  rw [valid_escaped_iff, stripped_front]
  constructor
  · rintro ⟨t, ht⟩
    obtain ⟨r, hr, hlength, hnext⟩ := front_split room (stripped s)
    rw [ht] at hr hlength hnext
    exact ⟨t, r, hr, hlength, hnext⟩
  · rintro ⟨t, r, hr, hlength, hnext⟩
    rw [front_unique hr hlength hnext]
    exact valid_encode t

/-- What the escaper leaves in its buffer is valid exactly when the string is intact up to there. -/
private theorem escape_valid_iff (s : Bytes) (hn : 0 < n) :
    Valid (eventEscapeJson (some s) n) ↔ Intact s (n - 1) := by
  rw [← valid_front_iff, eventEscapeJson, escapeLoop_front hn, Nat.sub_zero]

/-- The same where what is left in the buffer is cut once more. -/
private theorem escape_take_valid_iff (s : Bytes) (hn : 0 < n) :
    Valid ((eventEscapeJson (some s) n).take k) ↔ Intact s (min k (n - 1)) := by
  rw [eventEscapeJson, escapeLoop_front hn, Nat.sub_zero]
  obtain ⟨h, htake, hhalf⟩ := take_escaped k (front (n - 1) s)
  have hplain : ∀ c ∈ h, c.toNat < 128 := by
    rcases hhalf with rfl | rfl
    · exact fun c hc => absurd hc List.not_mem_nil
    · rw [List.forall_mem_singleton]
      decide
  rw [htake, valid_append_plain hplain, front_front, valid_front_iff]

end Characters

section Templates

variable {fmt : FormatEnv} {type data a x m w b : Bytes} {size : Nat}
  {carries : List (List Bytes × Bytes)}

def Ascii (s : Bytes) : Prop := ∀ c ∈ s, c.toNat < 128

instance (s : Bytes) : Decidable (Ascii s) := List.decidableBAll (fun c : UInt8 => c.toNat < 128) s

theorem Ascii.append (h : Ascii a) (h' : Ascii b) : Ascii (a ++ b) :=
  List.forall_mem_append.mpr ⟨h, h'⟩

theorem Ascii.take (h : Ascii a) (k : Nat) : Ascii (a.take k) := fun c hc => h c (List.mem_of_mem_take hc)

private theorem ascii_escape (h : Ascii type) (n : Nat) : Ascii (eventEscapeJson (some type) n) := by
  obtain ⟨p, hp, heq⟩ := eventEscapeJson_escaped type n
  rw [heq]
  intro c hc
  obtain ⟨y, hy, hcy⟩ := List.mem_flatMap.mp hc
  exact escapeByte_low (h y (hp.subset hy)) c hcy

/-- A buffer that has room for the front of a template and what is put in only cuts its end. -/
private theorem template_valid_iff (x : Bytes) (size : Nat) (ha : Ascii a) (hb : Ascii b)
    (hroom : a.length + x.length < size) :
    Valid (snprintf size (a ++ (x ++ b))) ↔ Valid x := by
  rw [snprintf, List.take_append, List.take_of_length_le (by omega), List.take_append,
    List.take_of_length_le (by omega)]
  exact valid_between ha (hb.take _)

/-- Around ASCII, both sides have to be valid on their own. -/
private theorem joined_valid_iff (hm : Ascii m) (hne : m ≠ []) :
    Valid (x ++ (m ++ w)) ↔ Valid x ∧ Valid w := by
  constructor
  · rintro ⟨t, ht⟩
    obtain ⟨c, m', rfl⟩ := List.exists_cons_of_ne_nil hne
    obtain ⟨u, v, -, hx, hv⟩ := encode_split ht.symm
      (Or.inr ⟨c, m' ++ w, rfl, hm c List.mem_cons_self⟩)
    exact ⟨⟨u, hx⟩, (valid_append_iff (valid_plain hm)).mp ⟨v, hv⟩⟩
  · rintro ⟨hx, hw⟩
    exact hx.append ((valid_plain hm).append hw)

/-- The text of an event is valid exactly when its data is. -/
private theorem withType_valid (data : Bytes) (htype : Ascii type) (hmem : fmt.mem = true) :
    ∃ text, eventFormatWithType fmt (some type) (some data) = (0, some text) ∧
      (Valid text ↔ Valid data) := by
  rw [eventFormatWithType]
  simp only [eventEscapeAlloc, hmem, if_true, Option.getD_some]
  refine ⟨_, rfl, ?_⟩
  have htail : Ascii (ascii ",\"timestamp\":" ++ decimalInt fmt.now ++ ascii "\x7d") :=
    ((show Ascii (ascii ",\"timestamp\":") by decide).append (decimalInt_ascii fmt.now)).append (by decide)
  have hfront : Ascii (ascii "\x7b\"type\":\"" ++
      eventEscapeJson (some type) (type.length * 2 + 1) ++ ascii "\",\"data\":") :=
    ((show Ascii (ascii "\x7b\"type\":\"") by decide).append (ascii_escape htype _)).append (by decide)
  have hlengths : (ascii "\x7b\"type\":\"").length = 9 ∧ (ascii "\",\"data\":").length = 9 := by decide
  have hroom : (ascii "\x7b\"type\":\"" ++ eventEscapeJson (some type) (type.length * 2 + 1) ++
      ascii "\",\"data\":").length + data.length <
      (eventEscapeJson (some type) (type.length * 2 + 1)).length + data.length + 64 := by
    rw [List.length_append, List.length_append, hlengths.1, hlengths.2]
    omega
  have hiff := template_valid_iff data _ hfront htail hroom
  simpa only [List.append_assoc] using hiff

private theorem typed_valid_iff (htype : Ascii type) :
    (∀ f ∈ eventPushWithTypeTo fmt type data carries, Valid f.text) ↔
      (fmt.mem = true → Valid data) := by
  cases hmem : fmt.mem with
  | false =>
    refine iff_of_true (fun f hf => ?_) (fun h => Bool.noConfusion h)
    simp [eventPushWithTypeTo, eventFormatWithType, eventEscapeAlloc, hmem] at hf
  | true =>
    obtain ⟨text, htext, hiff⟩ := withType_valid data htype hmem
    rw [eventPushWithTypeTo, htext, ← hiff]
    simp

/-- The texts that a call pushes are valid. -/
def AllValid (es : List Event) : Prop := ∀ text, Event.push text ∈ es → Valid text

private theorem pushed_valid_iff (htype : Ascii type) :
    AllValid (eventPushWithType fmt type data) ↔ (fmt.mem = true → Valid data) := by
  unfold AllValid
  cases hmem : fmt.mem with
  | false =>
    refine iff_of_true (fun f hf => ?_) (fun h => Bool.noConfusion h)
    simp [eventPushWithType, eventFormatWithType, eventEscapeAlloc, hmem] at hf
  | true =>
    obtain ⟨text, htext, hiff⟩ := withType_valid data htype hmem
    rw [eventPushWithType, htext, ← hiff]
    simp

end Templates

section Frames

variable {fmt : FormatEnv} {data cmd uuid : Bytes} {a st : String}

/-- The actions of the scheduler's events, and the statuses that go with them. -/
def rtWords : List (String × String) :=
  [("create", "created"), ("bind", "running"), ("remove", "stopped"), ("stop", "stopped"),
    ("cleanup", "stopped")]

/-- The message is echoed. -/
def Echoed (data : Bytes) : Prop :=
  cString data ≠ ascii "ping" ∧ cString data ≠ ascii "status" ∧ data.head? ≠ some 123

/-- The words of the commands that have an answer of their own. -/
def commandWords : List Bytes :=
  [ascii "bind", ascii "remove", ascii "status", ascii "msg", ascii "call"]

private theorem escape_length (s : Bytes) {n : Nat} (h : 0 < n) :
    (eventEscapeJson (some s) n).length < n :=
  eventEscapeJson_length h

private theorem echo_valid_iff : (∀ f ∈ echoFrames fmt data, Valid f.text) ↔
    (fmt.mem = true → Intact (cString data) 4095) := by
  have hhead : Ascii (ascii "\x7b\"message\":\"") := by decide
  have htail : Ascii (ascii "\",\"len\":" ++ (decimal data.length ++ ascii "\x7d")) :=
    Ascii.append (by decide)
      (Ascii.append (decimalInt_ascii (Int.ofNat data.length)) (by decide))
  have hlength : (ascii "\x7b\"message\":\"").length = 12 := by decide
  have hesc := escape_length (cString data) (n := 4096) (by decide)
  have hiff := template_valid_iff (eventEscapeJson (some (cString data)) 4096) 4224
    hhead htail (by rw [hlength]; omega)
  rw [escape_valid_iff _ (by decide)] at hiff
  rw [echoFrames, typed_valid_iff (by decide), ← hiff]
  simp only [List.append_assoc]

private theorem unknown_valid_iff : (∀ f ∈ unknownFrames fmt cmd, Valid f.text) ↔
    (fmt.mem = true → Intact cmd 127) := by
  have hhead : Ascii (ascii "\x7b\"cmd\":\"") := by decide
  have htail : Ascii (ascii "\",\"status\":\"unknown\"\x7d") := by decide
  have hlength : (ascii "\x7b\"cmd\":\"").length = 8 := by decide
  have hesc := escape_length cmd (n := 128) (by decide)
  have hiff := template_valid_iff (eventEscapeJson (some cmd) 128) 288
    hhead htail (by rw [hlength]; omega)
  rw [escape_valid_iff _ (by decide)] at hiff
  rw [unknownFrames, typed_valid_iff (by decide), ← hiff]
  simp only [List.append_assoc]

private theorem event_valid_iff (hwords : (a, st) ∈ rtWords) : AllValid (sendRtEvent fmt a uuid st) ↔
    (fmt.mem = true → Intact uuid 127) := by
  have hascii : Ascii (ascii a) ∧ Ascii (ascii st) ∧ (ascii a).length ≤ 7 := by
    have hall : ∀ w ∈ rtWords, Ascii (ascii w.1) ∧ Ascii (ascii w.2) ∧ (ascii w.1).length ≤ 7 := by
      decide
    exact hall _ hwords
  have hhead : Ascii (ascii "\x7b\"action\":\"" ++ ascii a ++ ascii "\",\"uuid\":\"") :=
    Ascii.append (Ascii.append (by decide) hascii.1) (by decide)
  have htail : Ascii (ascii "\",\"status\":\"" ++ (ascii st ++ ascii "\"\x7d")) :=
    Ascii.append (by decide) (hascii.2.1.append (by decide))
  have hlengths : (ascii "\x7b\"action\":\"").length = 11 ∧ (ascii "\",\"uuid\":\"").length = 10 := by
    decide
  have hesc := escape_length uuid (n := 128) (by decide)
  have hiff := template_valid_iff (eventEscapeJson (some uuid) 128) 256 hhead htail (by
    rw [List.length_append, List.length_append, hlengths.1, hlengths.2]
    omega)
  rw [escape_valid_iff _ (by decide)] at hiff
  rw [sendRtEvent, pushed_valid_iff (by decide), ← hiff]
  simp only [List.append_assoc]

/-- Two strings in a buffer that cuts the second one. -/
private theorem pair_valid_iff (x y : Bytes) (size : Nat) {head mid tail : Bytes} (hhead : Ascii head)
    (hmid : Ascii mid) (hne : mid ≠ []) (htail : Ascii tail)
    (hroom : head.length + x.length + mid.length < size) :
    Valid (snprintf size (head ++ (x ++ (mid ++ (y ++ tail))))) ↔
      Valid x ∧ Valid (y.take (size - 1 - head.length - x.length - mid.length)) := by
  rw [snprintf, List.take_append, List.take_of_length_le (by omega), List.take_append,
    List.take_of_length_le (by omega), List.take_append, List.take_of_length_le (by omega),
    valid_append_iff (valid_plain hhead), joined_valid_iff hmid hne, List.take_append,
    valid_append_plain (htail.take _)]

private theorem msg_valid_iff (huuid : uuid.length ≤ 63) : Valid (msgText uuid data) ↔
    Intact uuid 127 ∧ Intact data (min (1130 - (escaped uuid).length) 1023) := by
  have hwhole : eventEscapeJson (some uuid) 128 = escaped uuid := escapeLoop_whole (by omega)
  have hlength := escape_length uuid (n := 128) (by decide)
  have hlengths : (ascii "\x7b\"target\":\"").length = 11 ∧ (ascii "\",\"data\":\"").length = 10 := by
    decide
  have hiff := pair_valid_iff (eventEscapeJson (some uuid) 128)
    (eventEscapeJson (some data) 1024) 1152
    (show Ascii (ascii "\x7b\"target\":\"") by decide)
    (show Ascii (ascii "\",\"data\":\"") by decide) (by decide)
    (show Ascii (ascii "\"\x7d") by decide) (by rw [hlengths.1, hlengths.2]; omega)
  have hroom : 1152 - 1 - 11 - (eventEscapeJson (some uuid) 128).length - 10 =
      1130 - (escaped uuid).length := by
    rw [hwhole]
    omega
  rw [escape_valid_iff _ (by decide), escape_take_valid_iff _ (by decide), hlengths.1, hlengths.2,
    hroom] at hiff
  rw [msgText, ← hiff]
  simp only [List.append_assoc]

private theorem broadcast_valid_iff {len : Nat} (huuid : uuid.length ≤ 63) :
    Valid (broadcastText uuid data len) ↔
      Valid uuid ∧ Valid ((precision len data).take (491 - uuid.length)) := by
  have hlengths : (ascii "\x7b\"target\":\"").length = 11 ∧ (ascii "\",\"data\":").length = 9 := by
    decide
  have hiff := pair_valid_iff uuid (precision len data) 512
    (show Ascii (ascii "\x7b\"target\":\"") by decide)
    (show Ascii (ascii "\",\"data\":") by decide) (by decide)
    (show Ascii (ascii "\x7d") by decide) (by rw [hlengths.1, hlengths.2]; omega)
  have hroom : 512 - 1 - 11 - uuid.length - 9 = 491 - uuid.length := by omega
  rw [hlengths.1, hlengths.2, hroom] at hiff
  rw [broadcastText, ← hiff]
  simp only [List.append_assoc]

/-- The texts of the escaper, the echo, the reply to an unknown command and the events of the
scheduler are valid exactly when no buffer ends inside a character, and what comes in is valid up to
there. -/
theorem escaped_valid_iff (mg : MgJson) :
    (∀ s n, 0 < n → (Valid (eventEscapeJson (some s) n) ↔ Intact s (n - 1))) ∧
    (∀ s connId data env, Echoed data →
      ((∀ f ∈ (handleWsMessage mg s connId data env).frames, Valid f.text) ↔
        (env.push.mem = true → Intact (cString data) 4095))) ∧
    (∀ s connId data env req, Command mg data req → req.cmd.getD [] ∉ commandWords →
      ((∀ f ∈ (handleWsMessage mg s connId data env).frames, Valid f.text) ↔
        (env.push.mem = true → Intact (req.cmd.getD []) 127))) ∧
    (∀ a st fmt uuid, (a, st) ∈ rtWords → (AllValid (sendRtEvent fmt a uuid st) ↔
      (fmt.mem = true → Intact uuid 127))) ∧
    (∀ task data fmt, task.uuid.length ≤ 63 → task.status = .running →
      (AllValid (rtSendMsg (some task) (some data) fmt).2 ↔ (fmt.mem = true →
        Intact task.uuid 127 ∧ Intact data (min (1130 - (escaped task.uuid).length) 1023)))) ∧
    (∀ node data len fmt, node.task.uuid.length ≤ 63 → node.task.status = .running →
      (AllValid (broadcastNode data len fmt node) ↔ (fmt.mem = true → Valid node.task.uuid ∧
        Valid ((precision len data).take (491 - node.task.uuid.length))))) := by
  refine ⟨fun s n hn => escape_valid_iff s hn, ?_, ?_, fun a st fmt uuid hwords => event_valid_iff hwords,
    ?_, ?_⟩
  · rintro s connId data env ⟨hping, hstatus, hhead⟩
    rw [handleWsMessage, if_neg hping, if_neg hstatus, if_pos hhead]
    exact echo_valid_iff
  · intro s connId data env req command hwords
    simp only [commandWords, List.mem_cons, List.not_mem_nil, or_false, not_or] at hwords
    obtain ⟨hbind, hremove, hstatus, hmsg, hcall⟩ := hwords
    rw [command_handled command]
    dsimp only
    rw [if_neg hbind, if_neg hremove, if_neg hstatus, if_neg hmsg, if_neg hcall]
    exact unknown_valid_iff
  · intro task data fmt huuid hrunning
    have hpush : (rtSendMsg (some task) (some data) fmt).2 =
        eventPushWithType fmt (ascii "msg") (msgText task.uuid data) := by
      rw [rtSendMsg, if_neg (not_not.mpr hrunning)]
    rw [hpush, pushed_valid_iff (by decide), msg_valid_iff huuid]
  · intro node data len fmt huuid hrunning
    rw [broadcastNode, if_pos hrunning, pushed_valid_iff (by decide), broadcast_valid_iff huuid]

/-- A letter of two bytes. -/
def letter : Bytes := [195, 169]

def callOut (cmd : Bytes) : Bytes := ascii "\x7b\"cmd\":\"" ++ cmd ++ ascii "\"\x7d"

private theorem letter_valid : Valid letter := by decide

/-- With room for it, the letter passes through every one of the texts. -/
theorem letter_escaped : Valid (eventEscapeJson (some letter) 3) ∧
    (∀ f ∈ (handleWsMessage (mongoose fun _ _ d => d) ⟨.initial, false⟩ 7 letter deafEnv).frames,
      Valid f.text) ∧
    (∀ f ∈ (handleWsMessage (mongoose fun _ _ d => d) ⟨.initial, false⟩ 7 (callOut letter)
      deafEnv).frames, Valid f.text) ∧
    AllValid (sendRtEvent ⟨true, 0⟩ "stop" letter "stopped") ∧
    AllValid (rtSendMsg (some ⟨[], [], letter, .running, none, 0, none⟩) (some letter) ⟨true, 0⟩).2 ∧
    AllValid (broadcastNode (ascii "1") 1 ⟨true, 0⟩
      ⟨⟨[], [], letter, .running, none, 0, none⟩, 0, false⟩) := by
  have hwhole : ∀ room, 2 ≤ room → Intact letter room := by
    intro room hroom
    exact ⟨text letter, [], by decide, hroom, fun c hc => absurd hc (Option.not_mem_none c)⟩
  have hcommand : Command (mongoose fun _ _ d => d) (callOut letter) ⟨some letter, none, none, none⟩ :=
    ⟨by decide +kernel, by decide +kernel, by decide, [], by decide +kernel⟩
  obtain ⟨hescape, hecho, hunknown, hevent, hmsg, hbroadcast⟩ := escaped_valid_iff (mongoose fun _ _ d => d)
  refine ⟨(hescape letter 3 (by decide)).mpr (hwhole 2 (by decide)),
    (hecho _ _ _ _ ⟨by decide, by decide, by decide⟩).mpr fun _ => hwhole 4095 (by decide),
    (hunknown _ _ _ _ _ hcommand (by decide)).mpr fun _ => hwhole 127 (by decide),
    (hevent _ _ _ _ (by decide)).mpr fun _ => hwhole 127 (by decide),
    (hmsg _ _ _ (by decide) rfl).mpr fun _ => ⟨hwhole 127 (by decide), hwhole _ (by decide)⟩,
    (hbroadcast _ _ _ _ (by decide) rfl).mpr fun _ => ⟨letter_valid, by decide⟩⟩

/-- The name of a command whose last letter stands where the buffer ends. -/
def longName : Bytes := List.replicate 126 97 ++ letter

/-- A buffer that ends inside the letter leaves half of it; so does the reply to an unknown command,
for a name that is too long, and for an escape that mongoose reads as one byte. -/
theorem letter_torn : ¬Valid (eventEscapeJson (some letter) 2) ∧
    (Valid (callOut longName) ∧ ∃ f ∈ (handleWsMessage (mongoose fun _ _ d => d) ⟨.initial, false⟩ 7
      (callOut longName) deafEnv).frames, ¬Valid f.text) ∧
    (Valid (callOut (ascii "\\u00ff")) ∧ ∃ f ∈ (handleWsMessage (mongoose fun _ _ d => d)
      ⟨.initial, false⟩ 7 (callOut (ascii "\\u00ff")) deafEnv).frames, ¬Valid f.text) :=
  ⟨by decide, by decide +kernel, by decide +kernel⟩

end Frames

end Cyctron.Event.Unicode
