/- Cyctron/Sse/Format
   digest: The texts that handler_sse.c sends: formatted events and keepalives. -/

import Cyctron.Json.Build
import Cyctron.Text.Utf8

set_option autoImplicit false
set_option relaxedAutoImplicit false

namespace Cyctron.Sse.Format

open Cyctron.Base.CString Cyctron.Text.Utf8
open Cyctron.Json.Build (decimalInt_shape decimalInt_ascii)
open Cyctron.Json.Text (isDigit)

abbrev Text := List Char

/-- The name and the data that `sse_format_event` puts in for missing ones. -/
def eventName (event : Option Bytes) : Bytes :=
  match event with
  | none | some [] => ascii "message"
  | some e => e

def eventData (data : Option Bytes) : Bytes := data.getD (ascii "null")

def eventText (id : Int) (event data : Option Bytes) : Bytes :=
  ascii "id: " ++ (decimalInt id ++ (ascii "\nevent: " ++ (eventName event ++
    (ascii "\ndata: " ++ (eventData data ++ ascii "\n\n")))))

/-- What `sse_format_event` leaves in the buffer, when it succeeds; the length is an `int`. -/
def sseFormatEvent (outSize : Nat) (id : Int) (event data : Option Bytes) : Option Bytes :=
  if outSize = 0 then none
  else
    let text := eventText id event data
    if 2 ^ 31 ≤ text.length ∨ outSize ≤ text.length then none else some text

/-- `sse_on_poll` sends the first seven bytes. -/
def keepalive : Bytes := (ascii ": ping\n\n").take 7

theorem format_text {outSize : Nat} {id : Int} {event data : Option Bytes} {text : Bytes}
    (h : sseFormatEvent outSize id event data = some text) : text = eventText id event data := by
  unfold sseFormatEvent at h
  split at h
  · cases h
  · dsimp only at h
    split at h
    · cases h
    · exact (Option.some.inj h).symm

section Decoded

/-- The digits of an integer as characters. -/
def digits (id : Int) : Text := (decimalInt id).map fun c => Char.ofNat c.toNat

private theorem decode_word (w : String) (h : (ascii w).all (fun c => c < 128) = true)
    (hw : (ascii w).map (fun c => Char.ofNat c.toNat) = w.toList) (cs : Bytes) :
    decode between (ascii w ++ cs) = ((decode between cs).1, w.toList ++ (decode between cs).2) := by
  have hplain : ∀ c ∈ ascii w, c.toNat < 128 := by
    intro c hc
    exact UInt8.lt_iff_toNat_lt.mp (of_decide_eq_true (List.all_eq_true.mp h c hc))
  rw [decode_plain hplain, hw]

/-- The end of a line ends what the line leaves unfinished. -/
private theorem decode_line (bs cs : Bytes) : decode between (bs ++ 10 :: cs) =
    ((decode between cs).1, text bs ++ '\n' :: (decode between cs).2) :=
  decode_ascii (c := 10) (by decide) bs cs

private theorem decode_newline (cs : Bytes) : decode between (10 :: cs) =
    ((decode between cs).1, '\n' :: (decode between cs).2) := decode_line [] cs

private theorem decode_decimal (id : Int) (cs : Bytes) : decode between (decimalInt id ++ cs) =
    ((decode between cs).1, digits id ++ (decode between cs).2) :=
  decode_plain (decimalInt_ascii id) cs

/-- No other character stands between the digits. -/
theorem digits_notMem (id : Int) {c : UInt8} (hc : c.toNat < 128) (hdigit : isDigit c = false)
    (hsign : c ≠ 45) : Char.ofNat c.toNat ∉ digits id := by
  rw [digits, ← text_plain (decimalInt_ascii id)]
  apply text_notMem hc
  intro hmem
  rcases (decimalInt_shape id).2 c hmem with h | h
  · exact Bool.false_ne_true (hdigit.symm.trans h)
  · exact hsign h

/-- What follows an event is decoded as if it stood on its own. -/
theorem decode_eventText (id : Int) (event data : Option Bytes) (cs : Bytes) :
    decode between (eventText id event data ++ cs) = ((decode between cs).1,
      "id: ".toList ++ (digits id ++ '\n' :: ("event: ".toList ++ (text (eventName event) ++ '\n' ::
        ("data: ".toList ++ (text (eventData data) ++ '\n' :: '\n' ::
          (decode between cs).2)))))) := by
  have hevent : ascii "\nevent: " = 10 :: ascii "event: " := by decide
  have hdata : ascii "\ndata: " = 10 :: ascii "data: " := by decide
  have hend : ascii "\n\n" = [10, 10] := by decide
  have htext : eventText id event data ++ cs = ascii "id: " ++ (decimalInt id ++ 10 ::
      (ascii "event: " ++ (eventName event ++ 10 :: (ascii "data: " ++ (eventData data ++ 10 ::
        10 :: cs))))) := by
    rw [eventText, hevent, hdata, hend]
    simp only [List.append_assoc, List.cons_append, List.nil_append]
  rw [htext, decode_word "id: " (by decide) (by decide), decode_decimal, decode_newline,
    decode_word "event: " (by decide) (by decide), decode_line,
    decode_word "data: " (by decide) (by decide), decode_line, decode_newline]

theorem decode_keepalive (cs : Bytes) : decode between (keepalive ++ cs) =
    ((decode between cs).1, ": ping".toList ++ '\n' :: (decode between cs).2) := by
  have hkeepalive : keepalive = ascii ": ping" ++ [10] := by decide
  rw [hkeepalive, List.append_assoc, decode_word ": ping" (by decide) (by decide),
    List.singleton_append, decode_newline]

end Decoded

end Cyctron.Sse.Format
