/- Cyctron/Event/Escapers
   digest: The two escapers on the memory they write: neither writes beyond it, the bounded one stops before
   an escape that does not fit, and with the memory they allocate both give the whole string. -/

import Cyctron.Event.Unicode
import Cyctron.Machine.Storage

set_option autoImplicit false
set_option relaxedAutoImplicit false

namespace Cyctron.Event.Escapers

open Cyctron.Base.CString Cyctron.Event.Format Cyctron.Json.Escape Cyctron.Machine.Storage
open Cyctron.Call.Protocol (escapeByte)
open Cyctron.Event.Unicode (front front_split escapeLoop_front escaped_cons escaped_append)
open Cyctron.Json.Text (Body decode)

variable {s p q l m : Bytes} {n : Nat}

/-- `malloc` gives memory of the size that was asked for, with any contents. -/
structure Allocator where
  malloc : Nat → Option Bytes
  malloc_length : ∀ {size : Nat} {m : Bytes}, malloc size = some m → m.length = size

/-- The loop of `event_escape_json` from the character at `p` on, with `o` bytes written. -/
def eventLoop (outSize : Nat) (out : Bytes) (o : Nat) : Bytes → Except Fault (Bytes × Nat)
  | [] => .ok (out, o)
  | c :: p =>
    match rep c with
    | some r =>
      if outSize ≤ o + r.length then .ok (out, o)
      else do eventLoop outSize (← copy out o r) (o + r.length) p
    | none =>
      if c < 32 then eventLoop outSize out o p
      else if outSize ≤ o + 1 then .ok (out, o)
      else do eventLoop outSize (← put out o c) (o + 1) p

/-- The memory at `out` after `event_escape_json`. -/
def eventEscapeJson (s : Option Bytes) (out : Bytes) (outSize : Nat) : Except Fault Bytes :=
  if outSize = 0 then .ok out
  else
    match s with
    | none => put out 0 0
    | some s => do
      let (out, o) ← eventLoop outSize out 0 s
      put out o 0

/-- The size that both functions ask for; the null pointer counts as the empty string. -/
def cap (s : Option Bytes) : Nat := (s.getD []).length * 2 + 1

def eventEscapeAlloc (a : Allocator) (s : Option Bytes) : Except Fault (Option Bytes) :=
  match a.malloc (cap s) with
  | none => .ok none
  | some out => some <$> eventEscapeJson (some (s.getD [])) out (cap s)

/-- The loop of `json_escape_dup` from the character at `p` on, with `o` bytes written. -/
def dupLoop (out : Bytes) (o : Nat) : Bytes → Except Fault (Bytes × Nat)
  | [] => .ok (out, o)
  | c :: p =>
    if c = 34 then do dupLoop (← copy out o [92, 34]) (o + 2) p
    else if c = 92 then do dupLoop (← copy out o [92, 92]) (o + 2) p
    else if c = 10 then do dupLoop (← copy out o [92, 110]) (o + 2) p
    else if c = 13 then do dupLoop (← copy out o [92, 114]) (o + 2) p
    else if c = 9 then do dupLoop (← copy out o [92, 116]) (o + 2) p
    else if c < 32 then dupLoop out o p
    else do dupLoop (← put out o c) (o + 1) p

def jsonEscapeDup (a : Allocator) (s : Option Bytes) : Except Fault (Option Bytes) :=
  match a.malloc (cap s) with
  | none => .ok none
  | some out => do
    let (out, o) ← dupLoop out 0 (s.getD [])
    return some (← put out o 0)

section Loops

/-- The bounded loop stays inside memory of the size it is told. -/
private theorem eventLoop_overlay (hl : l.length < n) (hm : n ≤ m.length) :
    eventLoop n (overlay m l) l.length s =
      .ok (overlay m (l ++ escapeLoop n l.length s), (l ++ escapeLoop n l.length s).length) := by
  induction s generalizing l with
  | nil => rw [eventLoop, escapeLoop, List.append_nil]
  | cons c s ih =>
    have hstop : Except.ok (overlay m l, l.length) =
        (.ok (overlay m (l ++ []), (l ++ []).length) : Except Fault (Bytes × Nat)) := by
      rw [List.append_nil]
    rw [eventLoop, escapeLoop]
    cases hrep : rep c with
    | some r =>
      dsimp only
      by_cases hfull : n ≤ l.length + r.length
      · rw [if_pos hfull, if_pos hfull]
        exact hstop
      · have hnext := ih (l := l ++ r) (by rw [List.length_append]; omega)
        rw [List.length_append, List.append_assoc] at hnext
        rw [if_neg hfull, if_neg hfull, copy_overlay (by omega)]
        exact hnext
    | none =>
      dsimp only
      by_cases hlow : c < 32
      · rw [if_pos hlow, if_pos hlow]
        exact ih hl
      · rw [if_neg hlow, if_neg hlow]
        by_cases hfull : n ≤ l.length + 1
        · rw [if_pos hfull, if_pos hfull]
          exact hstop
        · have hnext := ih (l := l ++ [c]) (by rw [List.length_append, List.length_singleton]; omega)
          rw [List.length_append, List.length_singleton, List.append_assoc,
            List.singleton_append] at hnext
          rw [if_neg hfull, if_neg hfull, put_overlay (by omega)]
          exact hnext

/-- A round of the other loop writes the escape of its byte. -/
private theorem dupLoop_cons (o : Nat) (c : UInt8) (s : Bytes) :
    dupLoop m o (c :: s) =
      copy m o (escapeByte c) >>= fun out => dupLoop out (o + (escapeByte c).length) s := by
  rw [dupLoop]
  unfold escapeByte
  split_ifs
  · rfl
  · rfl
  · rfl
  · rfl
  · rfl
  · rfl
  · rw [List.length_singleton, copy]
    cases put m o c with
    | ok out => rfl
    | error fault => rfl

/-- The other loop writes the whole string when there is room for it. -/
private theorem dupLoop_overlay (h : l.length + (escaped s).length ≤ m.length) :
    dupLoop (overlay m l) l.length s =
      .ok (overlay m (l ++ escaped s), (l ++ escaped s).length) := by
  induction s generalizing l with
  | nil =>
    rw [escaped, List.flatMap_nil, List.append_nil]
    rfl
  | cons c s ih =>
    rw [escaped_cons, List.length_append] at h
    have hnext := ih (l := l ++ escapeByte c) (by rw [List.length_append]; omega)
    rw [List.length_append, List.append_assoc] at hnext
    have hcopy : copy (overlay m l) l.length (escapeByte c) = .ok (overlay m (l ++ escapeByte c)) :=
      copy_overlay (by omega)
    rw [dupLoop_cons, hcopy, escaped_cons]
    exact hnext

end Loops

section Room

private theorem escapeByte_length (c : UInt8) : (escapeByte c).length ≤ 2 := by
  unfold escapeByte
  split_ifs <;> simp

private theorem escaped_length (s : Bytes) : (escaped s).length ≤ 2 * s.length := by
  induction s with
  | nil => exact Nat.le_refl _
  | cons c s ih =>
    have hbyte := escapeByte_length c
    rw [escaped_cons, List.length_append, List.length_cons]
    omega

private theorem escaped_terminated (s : Bytes) : 0 ∉ escaped s := by
  intro hmem
  obtain ⟨c, _, hc⟩ := List.mem_flatMap.mp hmem
  rcases byte_cases c with ⟨e, he, hshort, _⟩ | ⟨he, hlow, _⟩ | ⟨he, _⟩
  · rw [he] at hc
    rcases List.mem_cons.mp hc with hback | hc
    · cases hback
    · rw [← List.mem_singleton.mp hc] at hshort
      cases hshort
  · rw [he] at hc
    rw [← List.mem_singleton.mp hc] at hlow
    cases hlow
  · rw [he] at hc
    cases hc

/-- The string that stands in front of memory. -/
private theorem cString_overlay (h : 0 ∉ l) : cString (overlay m (l ++ [0])) = l := by
  rw [cString, overlay, List.append_assoc, List.takeWhile_append_of_pos]
  · rw [List.singleton_append, List.takeWhile_cons_of_neg (by decide), List.append_nil]
  · intro c hc
    exact decide_eq_true fun heq => h (heq ▸ hc)

private theorem eventEscapeJson_overlay (hn : 0 < n) (hm : n ≤ m.length) :
    eventEscapeJson (some s) m n =
      .ok (overlay m (Format.eventEscapeJson (some s) n ++ [0])) := by
  have hloop := eventLoop_overlay (s := s) (l := []) hn hm
  rw [overlay_nil, List.nil_append, List.length_nil] at hloop
  have hlength := eventEscapeJson_length (s := s) hn
  unfold eventEscapeJson
  rw [if_neg (Nat.ne_of_gt hn)]
  dsimp only
  rw [hloop]
  exact put_overlay (Nat.lt_of_lt_of_le hlength hm)

end Room

section Bounded

/-- The longest prefix whose escape, with a terminator, has at most `n` bytes. -/
structure Longest (n : Nat) (s p : Bytes) : Prop where
  isPrefix : p <+: s
  fits : (escaped p).length + 1 ≤ n
  greatest : ∀ q, q <+: s → (escaped q).length + 1 ≤ n → q <+: p

private theorem escaped_mono (h : p <+: q) : (escaped p).length ≤ (escaped q).length := by
  obtain ⟨r, rfl⟩ := h
  rw [escaped_append, List.length_append]
  exact Nat.le_add_right _ _

/-- Where the front ends, the next escape does not fit. -/
private theorem longest_front (hn : 0 < n) (s : Bytes) : Longest n s (front (n - 1) s) := by
  obtain ⟨r, hs, hfits, hnext⟩ := front_split (n - 1) s
  refine ⟨⟨r, hs.symm⟩, by omega, fun q hq hshort => ?_⟩
  have hfront : front (n - 1) s <+: s := ⟨r, hs.symm⟩
  rcases List.prefix_or_prefix_of_prefix hq hfront with hle | ⟨t, ht⟩
  · exact hle
  · cases t with
    | nil =>
      rw [← ht, List.append_nil]
    | cons c t =>
      -- a longer prefix holds the byte that did not fit
      have hboth : front (n - 1) s ++ c :: t <+: front (n - 1) s ++ r := by
        rw [ht, ← hs]
        exact hq
      obtain ⟨u, hr⟩ := (List.prefix_append_right_inj _).mp hboth
      have hlong := hnext c (by rw [← hr]; rfl)
      have hmono : (escaped (front (n - 1) s ++ [c])).length ≤ (escaped q).length :=
        escaped_mono ⟨t, by rw [← ht, List.append_assoc, List.singleton_append]⟩
      omega

theorem bounded_escaping (s m : Bytes) (hn : 0 < n) (hm : n ≤ m.length) :
    ∃ p out, Longest n s p ∧ eventEscapeJson (some s) m n = .ok out ∧
      out = escaped p ++ 0 :: m.drop ((escaped p).length + 1) ∧
      out.length = m.length ∧ out.drop n = m.drop n ∧ cString out = escaped p ∧
      Body (escaped p) ∧ decode (escaped p) = stripped p := by
  have hlongest := longest_front hn s
  have hwritten : Format.eventEscapeJson (some s) n = escaped (front (n - 1) s) :=
    escapeLoop_front hn
  have hrun := eventEscapeJson_overlay (s := s) hn hm
  rw [hwritten] at hrun
  have hfits : (escaped (front (n - 1) s) ++ [0]).length ≤ n := by
    rw [List.length_append]
    exact hlongest.fits
  refine ⟨front (n - 1) s, _, hlongest, hrun, ?_, overlay_length (Nat.le_trans hfits hm), ?_,
    cString_overlay (escaped_terminated _), body_escaped _, decode_escaped _⟩
  · rw [overlay, List.append_assoc, List.length_append]
    rfl
  · rw [overlay, List.drop_append, List.drop_of_length_le hfits, List.nil_append, List.drop_drop]
    congr 1
    omega

/-- In three bytes there is room for a letter, but not for the pair behind it. -/
theorem bounded_escaping_three :
    ∃ p out, Longest 3 (ascii "a\"b") p ∧
      eventEscapeJson (some (ascii "a\"b")) (List.replicate 4 7) 3 = .ok out ∧
      out = escaped p ++ 0 :: (List.replicate 4 7).drop ((escaped p).length + 1) ∧
      out.length = 4 ∧ out.drop 3 = (List.replicate 4 7).drop 3 ∧ cString out = escaped p ∧
      Body (escaped p) ∧ decode (escaped p) = stripped p :=
  bounded_escaping (ascii "a\"b") (List.replicate 4 7) (by decide) (by decide)

end Bounded

section Agreement

private theorem room_escaped (s : Option Bytes) : (escaped (s.getD []) ++ [0]).length ≤ cap s := by
  have hlength := escaped_length (s.getD [])
  rw [List.length_append, List.length_singleton, cap]
  omega

private theorem eventEscapeAlloc_eq (a : Allocator) (s : Option Bytes) :
    eventEscapeAlloc a s =
      .ok ((a.malloc (cap s)).map fun m => overlay m (escaped (s.getD []) ++ [0])) := by
  unfold eventEscapeAlloc
  cases hm : a.malloc (cap s) with
  | none => rfl
  | some m =>
    have hroom : cap s ≤ m.length := Nat.le_of_eq (a.malloc_length hm).symm
    have hwhole : Format.eventEscapeJson (some (s.getD [])) (cap s) = escaped (s.getD []) :=
      eventEscapeJson_whole (s.getD [])
    have hrun := eventEscapeJson_overlay (s := s.getD []) (n := cap s) (Nat.succ_pos _) hroom
    rw [hwhole] at hrun
    dsimp only
    rw [hrun]
    rfl

private theorem jsonEscapeDup_eq (a : Allocator) (s : Option Bytes) :
    jsonEscapeDup a s =
      .ok ((a.malloc (cap s)).map fun m => overlay m (escaped (s.getD []) ++ [0])) := by
  unfold jsonEscapeDup
  cases hm : a.malloc (cap s) with
  | none => rfl
  | some m =>
    have hroom := room_escaped s
    rw [← a.malloc_length hm, List.length_append, List.length_singleton] at hroom
    have hloop : dupLoop m 0 (s.getD []) =
        .ok (overlay m (escaped (s.getD [])), (escaped (s.getD [])).length) :=
      dupLoop_overlay (l := []) (by rw [List.length_nil]; omega)
    have hend : put (overlay m (escaped (s.getD []))) (escaped (s.getD [])).length 0 =
        .ok (overlay m (escaped (s.getD []) ++ [0])) := put_overlay hroom
    dsimp only
    rw [hloop]
    show (do return some (← put (overlay m (escaped (s.getD []))) (escaped (s.getD [])).length 0)) = _
    rw [hend]
    rfl

/-- The string in the memory is the one that the text models give. -/
theorem eventEscapeAlloc_text (a : Allocator) (s : Option Bytes) :
    (eventEscapeAlloc a s).map (Option.map cString) =
      .ok (Format.eventEscapeAlloc (a.malloc (cap s)).isSome s) := by
  have hwhole : Format.eventEscapeJson (some (s.getD [])) (cap s) = escaped (s.getD []) :=
    eventEscapeJson_whole (s.getD [])
  rw [eventEscapeAlloc_eq, Format.eventEscapeAlloc]
  cases a.malloc (cap s) with
  | none => rfl
  | some m =>
    rw [Option.map_some, Except.map, Option.map_some, cString_overlay (escaped_terminated _),
      Option.isSome_some, if_pos rfl, ← hwhole]
    rfl

theorem jsonEscapeDup_text (a : Allocator) (s : Option Bytes) :
    (jsonEscapeDup a s).map (Option.map cString) =
      .ok ((a.malloc (cap s)).map fun _ => Call.Protocol.jsonEscapeDup s) := by
  rw [jsonEscapeDup_eq]
  cases a.malloc (cap s) with
  | none => rfl
  | some m =>
    rw [Option.map_some, Except.map, Option.map_some, cString_overlay (escaped_terminated _)]
    rfl

/-- Each gives the whole string escaped, in front of what the memory held. -/
theorem escapers_agree (a b : Allocator) (s : Option Bytes) :
    jsonEscapeDup a s =
      .ok ((a.malloc (cap s)).map fun m => overlay m (escaped (s.getD []) ++ [0])) ∧
    eventEscapeAlloc b s =
      .ok ((b.malloc (cap s)).map fun m => overlay m (escaped (s.getD []) ++ [0])) ∧
    (escaped (s.getD []) ++ [0]).length ≤ cap s ∧
    (∀ m, cString (overlay m (escaped (s.getD []) ++ [0])) = escaped (s.getD [])) ∧
    decode (escaped (s.getD [])) = stripped (s.getD []) :=
  ⟨jsonEscapeDup_eq a s, eventEscapeAlloc_eq b s, room_escaped s,
    fun _ => cString_overlay (escaped_terminated _), decode_escaped _⟩

theorem leftovers_length {size : Nat} {m : Bytes} (h : some (List.replicate size 170) = some m) :
    m.length = size := by
  rw [← Option.some.inj h, List.length_replicate]

/-- Memory that is never short, with old bytes in it. -/
def leftovers : Allocator := ⟨fun size => some (List.replicate size 170), leftovers_length⟩

/-- A quotation mark is escaped, and a control character is dropped. -/
theorem escapers_agree_quote : ∃ out : Bytes,
    jsonEscapeDup leftovers (some (ascii "a\"b" ++ [1])) = .ok (some out) ∧
    eventEscapeAlloc leftovers (some (ascii "a\"b" ++ [1])) = .ok (some out) ∧
    cString out = ascii "a\\\"b" ∧ decode (ascii "a\\\"b") = ascii "a\"b" := by
  obtain ⟨hdup, hevent, -, hstring, hdecode⟩ :=
    escapers_agree leftovers leftovers (some (ascii "a\"b" ++ [1]))
  have hescaped : escaped (ascii "a\"b" ++ [1]) = ascii "a\\\"b" := by decide
  have hstripped : stripped (ascii "a\"b" ++ [1]) = ascii "a\"b" := by decide
  rw [Option.getD_some, hescaped] at hdup hevent hstring hdecode
  exact ⟨_, hdup, hevent, hstring _, hdecode.trans hstripped⟩

end Agreement

end Cyctron.Event.Escapers
