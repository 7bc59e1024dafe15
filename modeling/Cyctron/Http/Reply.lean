/- Cyctron/Http/Reply
   digest: The responses of mg_http_reply, and how a client finds them again in the stream. -/

import Cyctron.Http.Heads
import Cyctron.Http.Stream

set_option autoImplicit false
set_option relaxedAutoImplicit false

namespace Cyctron.Http.Reply

open Cyctron.Base.CString Cyctron.Http.Heads Cyctron.Http.Parse Cyctron.Mongoose.Query
open Cyctron.Http.Stream (parse_len parse_append)
open Cyctron.Json.Build (decimal_digits decimalInt_shape)
open Cyctron.Json.Text (isDigit)
open Cyctron.Machine.Framing (Reader Record Place play)
open Cyctron.Mongoose.Object (digitsValue le_digitsValue)

/-- The cases of `mg_http_status_code_str`. -/
def statusCodes : List (Int × String) := [
  (100, "Continue"), (101, "Switching Protocols"), (102, "Processing"),
  (200, "OK"), (201, "Created"), (202, "Accepted"),
  (203, "Non-authoritative Information"), (204, "No Content"), (205, "Reset Content"),
  (206, "Partial Content"), (207, "Multi-Status"), (208, "Already Reported"),
  (226, "IM Used"), (300, "Multiple Choices"), (301, "Moved Permanently"),
  (302, "Found"), (303, "See Other"), (304, "Not Modified"),
  (305, "Use Proxy"), (307, "Temporary Redirect"), (308, "Permanent Redirect"),
  (400, "Bad Request"), (401, "Unauthorized"), (402, "Payment Required"),
  (403, "Forbidden"), (404, "Not Found"), (405, "Method Not Allowed"),
  (406, "Not Acceptable"), (407, "Proxy Authentication Required"), (408, "Request Timeout"),
  (409, "Conflict"), (410, "Gone"), (411, "Length Required"),
  (412, "Precondition Failed"), (413, "Payload Too Large"), (414, "Request-URI Too Long"),
  (415, "Unsupported Media Type"), (416, "Requested Range Not Satisfiable"), (417, "Expectation Failed"),
  (418, "I'm a teapot"), (421, "Misdirected Request"), (422, "Unprocessable Entity"),
  (423, "Locked"), (424, "Failed Dependency"), (426, "Upgrade Required"),
  (428, "Precondition Required"), (429, "Too Many Requests"), (431, "Request Header Fields Too Large"),
  (444, "Connection Closed Without Response"), (451, "Unavailable For Legal Reasons"), (499, "Client Closed Request"),
  (500, "Internal Server Error"), (501, "Not Implemented"), (502, "Bad Gateway"),
  (503, "Service Unavailable"), (504, "Gateway Timeout"), (505, "HTTP Version Not Supported"),
  (506, "Variant Also Negotiates"), (507, "Insufficient Storage"), (508, "Loop Detected"),
  (510, "Not Extended"), (511, "Network Authentication Required"), (599, "Network Connect Timeout Error")]

def mgHttpStatusCodeStr (code : Int) : Bytes :=
  ((statusCodes.find? fun c => c.1 = code).map fun c => ascii c.2).getD []

/-- The conversion `%-10lu`. -/
def padded (n : Nat) : Bytes := decimal n ++ List.replicate (10 - (decimal n).length) 32

/-- The format of `mg_http_reply`, with room for a length. -/
def replyHead (code : Int) (headers : Bytes) : Bytes :=
  ascii "HTTP/1.1 " ++ decimalInt code ++ [32] ++ mgHttpStatusCodeStr code ++ crlf ++ headers ++
    ascii "Content-Length:            \r\n\r\n"

/-- `mg_http_reply`: the send buffer with one more response, where memory does not run out. The length
is written over the blanks, with a terminator that becomes a blank. -/
def mgHttpReply (send : Bytes) (code : Int) (headers body : Bytes) : Bytes :=
  let start := send ++ replyHead code headers
  let len := start.length
  let buf := start ++ body
  if 16 < buf.length then
    let text := padded (buf.length - len)
    (buf.take (len - 15) ++ (text.take 10 ++ [0]) ++ buf.drop (len - 4)).set (len - 15 + text.length) 32
  else buf

example : mgHttpReply [] 404 [] (ascii "Not found\n") =
    ascii "HTTP/1.1 404 Not Found\r\nContent-Length: 10         \r\n\r\nNot found\n" := by decide +kernel

section Writing

variable {n : Nat}

private theorem padded_length (h : n < 10 ^ 10) : (padded n).length = 10 := by
  have hle := Json.Build.decimal_length h (by decide)
  rw [padded, List.length_append, List.length_replicate]
  omega

/-- The head with its length written. -/
def replyText (code : Int) (headers : Bytes) (n : Nat) : Bytes :=
  ascii "HTTP/1.1 " ++ decimalInt code ++ [32] ++ mgHttpStatusCodeStr code ++ crlf ++ headers ++
    ascii "Content-Length: " ++ padded n ++ [32] ++ crlf ++ crlf

/-- A body of less than ten billion bytes is announced with its length. -/
private theorem mgHttpReply_eq (send : Bytes) (code : Int) (headers : Bytes) {body : Bytes}
    (h : body.length < 10 ^ 10) :
    mgHttpReply send code headers body = send ++ replyText code headers body.length ++ body := by
  have hp := padded_length h
  obtain ⟨front, hfront⟩ : ∃ front, front = send ++ (ascii "HTTP/1.1 " ++ decimalInt code ++ [32] ++
    mgHttpStatusCodeStr code ++ crlf ++ headers) ++ ascii "Content-Length: " := ⟨_, rfl⟩
  have hblanks : ascii "Content-Length:            \r\n\r\n" =
      ascii "Content-Length: " ++ (List.replicate 11 32 ++ crlf ++ crlf) := by decide +kernel
  have hstart : send ++ replyHead code headers = front ++ (List.replicate 11 32 ++ crlf ++ crlf) := by
    rw [replyHead, hblanks, hfront]
    simp only [List.append_assoc]
  have hlen : (front ++ (List.replicate 11 32 ++ crlf ++ crlf)).length = front.length + 15 := by
    simp only [List.length_append, List.length_replicate, crlf, List.length_cons, List.length_nil]
  have hall : (front ++ (List.replicate 11 32 ++ crlf ++ crlf) ++ body).length =
      front.length + 15 + body.length := by
    rw [List.length_append, hlen]
  have hlong : 16 ≤ front.length := by
    rw [hfront, List.length_append]
    exact Nat.le_add_left 16 _
  have htake : (front ++ (List.replicate 11 32 ++ crlf ++ crlf) ++ body).take (front.length + 15 - 15) =
      front := by
    rw [Nat.add_sub_cancel, List.append_assoc, List.take_left]
  have hdrop : (front ++ (List.replicate 11 32 ++ crlf ++ crlf) ++ body).drop (front.length + 15 - 4) =
      crlf ++ crlf ++ body := by
    rw [show front.length + 15 - 4 = (front ++ List.replicate 11 (32 : UInt8)).length by
      rw [List.length_append, List.length_replicate]; omega, show
      front ++ (List.replicate 11 32 ++ crlf ++ crlf) ++ body =
        (front ++ List.replicate 11 32) ++ (crlf ++ crlf ++ body) by simp only [List.append_assoc],
      List.drop_left]
  have hset : (front ++ (padded body.length ++ [0]) ++ (crlf ++ crlf ++ body)).set (front.length + 10) 32 =
      front ++ (padded body.length ++ [32]) ++ (crlf ++ crlf ++ body) := by
    rw [show front.length + 10 = (front ++ padded body.length).length by rw [List.length_append, hp], show
      front ++ (padded body.length ++ [0]) ++ (crlf ++ crlf ++ body) =
        (front ++ padded body.length) ++ 0 :: (crlf ++ crlf ++ body) by
          simp only [List.append_assoc, List.cons_append, List.nil_append],
      List.set_append_right _ _ (Nat.le_refl _), Nat.sub_self, List.set_cons_zero]
    simp only [List.append_assoc, List.cons_append, List.nil_append]
  rw [mgHttpReply, hstart]
  dsimp only
  rw [hall, hlen, if_pos (by omega), Nat.add_sub_cancel_left, List.take_of_length_le (Nat.le_of_eq hp), htake, hdrop, hp, show front.length + 15 - 15 + 10 =
      front.length + 10 by omega, hset, hfront, replyText]
  simp only [List.append_assoc]

end Writing

section Lengths


variable {d s : Bytes} {n r reqLen : Nat}

private theorem digit_wordByte {c : UInt8} (h : isDigit c = true ∨ c = 45) :
    wordByte c = true ∧ c ≠ 63 := by
  rcases h with h | rfl
  · simp only [isDigit, Bool.and_eq_true, decide_eq_true_eq, UInt8.le_iff_toNat_le] at h
    obtain ⟨hlow, hhigh⟩ := h
    rw [wordByte, Bool.and_eq_true, decide_eq_true_eq, decide_eq_true_eq, UInt8.lt_iff_toNat_lt,
      UInt8.le_iff_toNat_le]
    refine ⟨⟨Nat.lt_of_lt_of_le (by decide) hlow, Nat.le_trans hhigh (by decide)⟩, ?_⟩
    rintro rfl
    exact absurd hhigh (by decide)
  · decide

private theorem sizeDigits_digits (hd : ∀ c ∈ d, isDigit c = true)
    (fits : digitsValue r d ≤ SIZE_MAX) :
    sizeDigits r d = some (digitsValue r d, []) := by
  induction d generalizing r with
  | nil => rfl
  | cons c d ih =>
    have hc := hd c List.mem_cons_self
    simp only [isDigit, Bool.and_eq_true, decide_eq_true_eq] at hc
    have hstep := le_digitsValue d (r * 10 + (c.toNat - 48))
    have hvalue : digitsValue r (c :: d) = digitsValue (r * 10 + (c.toNat - 48)) d := rfl
    rw [hvalue] at fits ⊢
    have hmax : SIZE_MAX = 18446744073709551615 := rfl
    rw [sizeDigits, if_pos hc, if_neg (by omega)]
    exact ih (fun x hx => hd x (List.mem_cons_of_mem c hx)) fits

theorem mgToSizeT_decimal (h : n ≤ SIZE_MAX) : mgToSizeT (decimal n) = some n := by
  obtain ⟨hne, hall⟩ := decimal_digits n
  have hvalue := Mongoose.Decimal.digitsValue_decimal n
  have hfront : (decimal n).dropWhile blank = decimal n := by
    refine dropWhile_front fun c hc => ?_
    have hdigit := hall c (List.mem_of_mem_head? hc)
    have hword := (digit_wordByte (Or.inl hdigit)).1
    rw [blank, Bool.or_eq_false_iff]
    refine ⟨decide_eq_false ?_, decide_eq_false ?_⟩
    · rintro rfl
      exact absurd hword (by decide)
    · rintro rfl
      exact absurd hword (by decide)
  have hdigits := sizeDigits_digits (r := 0) hall (by rw [hvalue]; exact h)
  rw [hvalue] at hdigits
  have hlen : ([] : Bytes).length ≠ (decimal n).length := by
    have := List.length_pos_of_ne_nil hne
    rw [List.length_nil]
    omega
  rw [mgToSizeT, hfront, if_neg (Mongoose.Decimal.decimal_no_sign n), hdigits]
  dsimp only
  rw [if_neg]
  rintro (heq | hrest)
  · exact hlen heq
  · exact hrest rfl

private theorem bodyLength_given (isResponse : Bool) (method uri : Bytes) (small : reqLen + n < 2 ^ 64)
    (hn : n < SIZE_MAX) : bodyLength reqLen isResponse method uri (some n) = some n := by
  have hmessage : ¬ (reqLen + n) % 2 ^ 64 < reqLen := by
    rw [Nat.mod_eq_of_lt small]
    omega
  rw [bodyLength, Option.getD_some, Option.elim_some, if_neg (fun h => absurd h.1 (Nat.ne_of_lt hn)),
    if_neg (fun h => absurd h.1 (Nat.ne_of_lt hn)), if_neg hmessage]

end Lengths

section Reading

/-- A call of `mg_http_reply`. -/
structure Response where
  code : Int
  headers : List Header
  body : Bytes
  few : headers.length + 1 < MG_MAX_HTTP_HEADERS
  unnamed : ∀ h ∈ headers, sameName (ascii "Content-Length") h.name = false
  bodySmall : body.length < 10 ^ 10
  headSmall : (replyText code (headers.flatMap Header.text) body.length).length < 2 ^ 63

def Response.write (send : Bytes) (r : Response) : Bytes :=
  mgHttpReply send r.code (r.headers.flatMap Header.text) r.body

def Response.bytes (r : Response) : Bytes :=
  replyText r.code (r.headers.flatMap Header.text) r.body.length ++ r.body

/-- What a client should read: the head, and the body. -/
def Response.read (r : Response) : Head × Bytes :=
  (⟨(replyText r.code (r.headers.flatMap Header.text) r.body.length).length, ascii "HTTP/1.1",
    decimalInt r.code, [], mgHttpStatusCodeStr r.code,
    r.headers.map Header.pair ++ [(ascii "Content-Length", decimal r.body.length)], r.body.length⟩, r.body)

/-- A response at the front of what a client has received, by `mg_http_parse`. -/
def nextReply (_ : Unit) (b : Bytes) : Option (Record Unit (Head × Bytes)) :=
  match mgHttpParse b with
  | .error _ => none
  | .ok h =>
    if h.len + h.bodyLen ≤ b.length then
      some ⟨(), [(h, (b.drop h.len).take h.bodyLen)], h.len + h.bodyLen⟩
    else none

variable {u : Unit} {b : Bytes} {r : Record Unit (Head × Bytes)}

private theorem nextReply_cases (h : nextReply u b = some r) :
    ∃ hd, mgHttpParse b = .ok hd ∧ hd.len + hd.bodyLen ≤ b.length ∧
      r = ⟨(), [(hd, (b.drop hd.len).take hd.bodyLen)], hd.len + hd.bodyLen⟩ := by
  rw [nextReply] at h
  cases hp : mgHttpParse b with
  | error n =>
    rw [hp] at h
    cases h
  | ok hd =>
    rw [hp] at h
    obtain ⟨hle, heq⟩ := Option.ite_none_right_eq_some.mp h
    exact ⟨hd, rfl, hle, (Option.some.inj heq).symm⟩

theorem nextReply_advances (h : nextReply u b = some r) : 0 < r.length ∧ r.length ≤ b.length := by
  obtain ⟨hd, hp, hle, rfl⟩ := nextReply_cases h
  exact ⟨Nat.lt_of_lt_of_le (parse_len hp).1 (Nat.le_add_right _ _), hle⟩

theorem nextReply_stable (c : Bytes) (h : nextReply u b = some r) : nextReply u (b ++ c) = some r := by
  obtain ⟨hd, hp, hle, rfl⟩ := nextReply_cases h
  have hlen := (parse_len hp).2
  rw [nextReply, parse_append hp c]
  dsimp only
  rw [if_pos (by rw [List.length_append]; omega), List.drop_append_of_le_length hlen,
    List.take_append_of_le_length (by rw [List.length_drop]; omega)]

/-- A client that reads responses off the stream. -/
def replies : Reader Unit UInt8 (Head × Bytes) := ⟨nextReply, nextReply_advances, nextReply_stable⟩

theorem replies_next : replies.next = nextReply := rfl

end Reading

section Lines

variable {n : Nat}

theorem decimal_word (n : Nat) : ∀ c ∈ decimal n, wordByte c = true :=
  fun c hc => (digit_wordByte (Or.inl ((decimal_digits n).2 c hc))).1

theorem decimalInt_word (i : Int) : ∀ c ∈ decimalInt i, wordByte c = true ∧ c ≠ 63 :=
  fun c hc => digit_wordByte ((decimalInt_shape i).2 c hc)

private theorem statusCodes_line : (statusCodes.all fun c =>
    (ascii c.2).all lineByte && (ascii c.2).head? != some 32) = true := by decide +kernel

private theorem statusText_line (code : Int) : (∀ b ∈ mgHttpStatusCodeStr code, lineByte b = true) ∧
    ∀ b ∈ (mgHttpStatusCodeStr code).head?, b ≠ 32 := by
  rw [mgHttpStatusCodeStr]
  cases hfind : statusCodes.find? fun c => c.1 = code with
  | none => exact ⟨fun b hb => absurd hb List.not_mem_nil, fun b hb => absurd hb (Option.not_mem_none b)⟩
  | some c =>
    have hline := List.all_eq_true.mp statusCodes_line c (List.mem_of_find?_eq_some hfind)
    rw [Bool.and_eq_true, bne_iff_ne] at hline
    refine ⟨List.all_eq_true.mp hline.1, ?_⟩
    rintro b hb rfl
    exact hline.2 hb

private theorem version_word : (ascii "HTTP/1.1").all wordByte = true := by decide

theorem version_ne : ascii "HTTP/1.1" ≠ [] := by decide

theorem length_name : Name (ascii "Content-Length") := name_of_check (by decide)

/-- The first line of a response. -/
def startLine (code : Int) : Start where
  first := ascii "HTTP/1.1"
  second := decimalInt code
  third := mgHttpStatusCodeStr code
  firstNe := version_ne
  secondNe := (decimalInt_shape code).1
  firstWord := List.all_eq_true.mp version_word
  secondWord c hc := (decimalInt_word code c hc).1
  line := (statusText_line code).1
  begins := (statusText_line code).2

/-- The line that the length is written into. -/
def lengthLine (n : Nat) : Header where
  name := ascii "Content-Length"
  value := decimal n
  trail := 10 - (decimal n).length + 1
  named := length_name.1
  word := length_name.2
  line c hc := lineByte_word (decimal_word n c hc)
  begins c hc := not_blank_word (decimal_word n c (List.mem_of_mem_head? hc))
  ends c hc := not_blank_word (decimal_word n c (List.mem_of_mem_getLast? hc))
  solid h := absurd h (decimal_digits n).1

private theorem lengthLine_text (n : Nat) :
    (lengthLine n).text = ascii "Content-Length: " ++ padded n ++ [32] ++ crlf := by
  have hname : ascii "Content-Length: " = ascii "Content-Length" ++ [58, 32] := by decide
  have htrail : List.replicate (lengthLine n).trail (32 : UInt8) =
      List.replicate (10 - (decimal n).length) 32 ++ [32] := List.replicate_succ'
  have hvalue : (lengthLine n).value = decimal n := rfl
  have hlabel : (lengthLine n).name = ascii "Content-Length" := rfl
  rw [Header.text, Header.content, htrail, hvalue, hlabel, hname, padded]
  simp only [List.append_assoc, List.cons_append, List.nil_append]

private theorem replyText_lines (code : Int) (hs : List Header) (n : Nat) :
    replyText code (hs.flatMap Header.text) n =
      headText (startLine code) (hs ++ [lengthLine n]) ++ crlf := by
  have hfirst : ascii "HTTP/1.1 " = ascii "HTTP/1.1" ++ [32] := by decide
  have hstart : (startLine code).content =
      ascii "HTTP/1.1" ++ 32 :: (decimalInt code ++ 32 :: mgHttpStatusCodeStr code) := rfl
  rw [headText, List.flatMap_append, List.flatMap_singleton, lengthLine_text, hstart, replyText, hfirst]
  simp only [List.append_assoc, List.cons_append, List.nil_append]

private theorem find_length {hs : List Header}
    (h : ∀ x ∈ hs, sameName (ascii "Content-Length") x.name = false) :
    mgHttpGetHeaderIn ((hs ++ [lengthLine n]).map Header.pair) "Content-Length" = some (decimal n) := by
  have hfront : (hs.map Header.pair).find? (fun p => sameName (ascii "Content-Length") p.1) = none := by
    refine List.find?_eq_none.mpr fun p hp => ?_
    obtain ⟨x, hx, rfl⟩ := List.mem_map.mp hp
    rw [Header.pair, h x hx]
    decide
  rw [mgHttpGetHeaderIn, List.map_append, List.find?_append, hfront]
  rfl

private theorem decimalInt_path (code : Int) : (decimalInt code).takeWhile (· ≠ 63) = decimalInt code ∧
    (decimalInt code).dropWhile (· ≠ 63) = [] := by
  have hall : ∀ c ∈ decimalInt code, decide (c ≠ 63) = true := fun c hc =>
    decide_eq_true (decimalInt_word code c hc).2
  exact ⟨List.takeWhile_eq_self_iff.mpr hall, List.dropWhile_eq_nil_iff.mpr hall⟩

/-- What a client reads of the head of a response. -/
def answerHead (code : Int) (hs : List Header) (n : Nat) : Head :=
  ⟨(headText (startLine code) hs ++ crlf).length, ascii "HTTP/1.1", decimalInt code, [],
    mgHttpStatusCodeStr code, hs.map Header.pair, n⟩

/-- The parser reads the head of a response back, whatever stands behind it. -/
theorem parse_answer (code : Int) {hs : List Header} (few : hs.length < MG_MAX_HTTP_HEADERS)
    (given : mgHttpGetHeaderIn (hs.map Header.pair) "Content-Length" = some (decimal n))
    (small : (headText (startLine code) hs ++ crlf).length + n < 2 ^ 64) (rest : Bytes) :
    mgHttpParse (headText (startLine code) hs ++ crlf ++ rest) = .ok (answerHead code hs n) := by
  have hmax : SIZE_MAX = 18446744073709551615 := rfl
  have hpos : 0 < (headText (startLine code) hs ++ crlf).length := by
    rw [List.length_append]
    exact Nat.lt_of_lt_of_le (by decide) (Nat.le_add_left crlf.length _)
  have hsize : mgToSizeT (decimal n) = some n := mgToSizeT_decimal (by omega)
  obtain ⟨hpath, hquery⟩ := decimalInt_path code
  have hsecond : (startLine code).second = decimalInt code := rfl
  rw [parse_text (n := n) few]
  · rw [hsecond, hpath, hquery]
    rfl
  · exact Or.inl (show httpPrefix (ascii "HTTP/1.1") = true by decide)
  · rw [hsecond, hpath]
    exact (decimalInt_shape code).1
  · rw [given, Option.map_some, hsize]
    exact fun h => absurd (Option.some.inj h) (Option.some_ne_none _)
  · rw [given, Option.bind_some, hsize]
    exact bodyLength_given _ _ _ small (by omega)

private theorem parse_reply (r : Response) (rest : Bytes) : mgHttpParse
    (replyText r.code (r.headers.flatMap Header.text) r.body.length ++ rest) = .ok r.read.1 := by
  have hsmall := r.bodySmall
  have hhead := r.headSmall
  have hmany : (r.headers ++ [lengthLine r.body.length]).length < MG_MAX_HTTP_HEADERS := by
    rw [List.length_append]
    exact r.few
  rw [replyText_lines] at hhead ⊢
  rw [parse_answer r.code hmany (find_length r.unnamed) (by omega), Response.read, replyText_lines,
    answerHead, List.map_append]
  rfl

theorem nextReply_found {text body rest : Bytes} {hd : Head}
    (parsed : mgHttpParse (text ++ (body ++ rest)) = .ok hd) (len : hd.len = text.length)
    (bodyLen : hd.bodyLen = body.length) (u : Unit) :
    nextReply u (text ++ body ++ rest) = some ⟨u, [(hd, body)], (text ++ body).length⟩ := by
  rw [List.append_assoc, nextReply, parsed]
  dsimp only
  rw [len, bodyLen, List.drop_left, List.take_left, if_pos, List.length_append]
  rw [List.length_append, List.length_append]
  omega

/-- Each response is read back in its place. -/
theorem replies_reads : replies.Reads (fun _ => True) Response.bytes fun u r => (u, [r.read]) := by
  intro u r rest _
  rw [replies_next]
  exact nextReply_found (parse_reply r (r.body ++ rest)) rfl rfl u

theorem play_read (rs : List Response) :
    play (fun u r => (u, [Response.read r])) () rs = ((), rs.map Response.read) := by
  induction rs with
  | nil => rfl
  | cons r rs ih =>
    rw [play, ih]
    rfl

theorem foldl_write (rs : List Response) (send : Bytes) :
    rs.foldl Response.write send = send ++ rs.flatMap Response.bytes := by
  induction rs generalizing send with
  | nil => exact (List.append_nil send).symm
  | cons r rs ih =>
    rw [List.foldl_cons, ih, Response.write, mgHttpReply_eq send r.code _ r.bodySmall, List.flatMap_cons,
      Response.bytes]
    simp only [List.append_assoc]

/-- Responses that are written one behind the other into a send buffer are read back with their
codes, headers and bodies, however the stream is cut. -/
theorem replies_read_back (rs : List Response) (chunks : List Bytes)
    (same : chunks.flatten = rs.foldl Response.write []) :
    replies.feedAll ⟨(), []⟩ chunks = (⟨(), []⟩, rs.map Response.read) := by
  rw [foldl_write, List.nil_append] at same
  rw [replies_reads.feedAll (fun _ _ => trivial) same, play_read]

theorem origin_name : Name (ascii "Access-Control-Allow-Origin") := name_of_check (by decide)
theorem type_name : Name (ascii "Content-Type") := name_of_check (by decide)
theorem origin_value : Value (ascii "*") := value_of_check (by decide)
theorem json_value : Value (ascii "application/json") := value_of_check (by decide)

/-- The headers of `reply_json`. -/
def jsonHeaders : List Header := [.plain origin_name origin_value, .plain type_name json_value]

theorem jsonHeaders_unnamed : ∀ h ∈ jsonHeaders, sameName (ascii "Content-Length") h.name = false :=
  List.forall_mem_cons.mpr ⟨(by decide : sameName _ (ascii "Access-Control-Allow-Origin") = false),
    List.forall_mem_singleton.mpr (by decide : sameName _ (ascii "Content-Type") = false)⟩

def created : Response where
  code := 201
  headers := jsonHeaders
  body := ascii "\x7b\"id\":7\x7d"
  few := by decide
  unnamed := jsonHeaders_unnamed
  bodySmall := by decide
  headSmall := by decide +kernel

def missing : Response where
  code := 404
  headers := []
  body := ascii "Not found\n"
  few := by decide
  unnamed h hmem := absurd hmem List.not_mem_nil
  bodySmall := by decide
  headSmall := by decide +kernel

theorem replies_read_back_sample : replies.feedAll ⟨(), []⟩
    [created.bytes.take 10, created.bytes.drop 10 ++ missing.bytes.take 60, missing.bytes.drop 60] =
      (⟨(), []⟩, [(⟨117, ascii "HTTP/1.1", ascii "201", [], ascii "Created",
        [(ascii "Access-Control-Allow-Origin", ascii "*"),
          (ascii "Content-Type", ascii "application/json"), (ascii "Content-Length", ascii "8")], 8⟩,
        ascii "\x7b\"id\":7\x7d"), missing.read]) :=
  replies_read_back [created, missing]
    [created.bytes.take 10, created.bytes.drop 10 ++ missing.bytes.take 60, missing.bytes.drop 60]
    (by decide +kernel)

end Lines

end Cyctron.Http.Reply
