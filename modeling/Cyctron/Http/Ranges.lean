/- Cyctron/Http/Ranges
   digest: What mg_http_serve_file answers for an open file: its range, and the head of the response. -/

import Cyctron.Http.Reply
import Cyctron.Http.Static

set_option autoImplicit false
set_option relaxedAutoImplicit false

namespace Cyctron.Http.Ranges

open Cyctron.Base.CString Cyctron.Http.Heads Cyctron.Http.Message Cyctron.Http.Parse Cyctron.Http.Reply
open Cyctron.Mongoose.Query

/-- `mg_span` -/
def mgSpan (s : Bytes) (sep : UInt8) : Option (Bytes × Bytes) :=
  if s = [] then none else some (s.takeWhile (· ≠ sep), (s.dropWhile (· ≠ sep)).drop 1)

def sKnownTypes : List (String × String) := [
  ("html", "text/html; charset=utf-8"), ("htm", "text/html; charset=utf-8"),
  ("css", "text/css; charset=utf-8"), ("js", "text/javascript; charset=utf-8"),
  ("mjs", "text/javascript; charset=utf-8"), ("gif", "image/gif"), ("png", "image/png"),
  ("jpg", "image/jpeg"), ("jpeg", "image/jpeg"), ("woff", "font/woff"), ("ttf", "font/ttf"),
  ("svg", "image/svg+xml"), ("txt", "text/plain; charset=utf-8"), ("avi", "video/x-msvideo"),
  ("csv", "text/csv"), ("doc", "application/msword"), ("exe", "application/octet-stream"),
  ("gz", "application/gzip"), ("ico", "image/x-icon"), ("json", "application/json"),
  ("mov", "video/quicktime"), ("mp3", "audio/mpeg"), ("mp4", "video/mp4"), ("mpeg", "video/mpeg"),
  ("pdf", "application/pdf"), ("shtml", "text/html; charset=utf-8"), ("tgz", "application/tar-gz"),
  ("wav", "audio/wav"), ("webp", "image/webp"), ("zip", "application/zip"), ("3gp", "video/3gpp")]

/-- The types that the handler sets itself. -/
def mimeTypes : Bytes := ascii
  "svg=image/svg+xml,json=application/json,js=text/javascript,mjs=text/javascript"

/-- `guess_content_type`: the first entry of the caller's for what stands behind the last point, else
the first of the table. -/
def guessContentType (path extra : Bytes) : Bytes :=
  let ext := (path.reverse.takeWhile (· ≠ 46)).reverse
  match (extra.splitOn 44).find? fun e => e ≠ [] && (spanKey e = [42] || spanKey e = ext) with
  | some e => spanValue e
  | none => ((sKnownTypes.find? fun t => ascii t.1 = ext).map fun t => ascii t.2).getD
      (ascii "text/plain; charset=utf-8")

/-- What `getrange` makes of the text behind `bytes=`: how many numbers there are, and the two. -/
def limits (v : Bytes) : Nat × Nat × Nat :=
  match mgSpan v 45 with
  | some (k, v) =>
    let a := mgToSizeT k
    let b := if v = [] then none else mgToSizeT v
    ((if a.isSome then 1 else 0) + (if b.isSome then 1 else 0), a.getD 0, b.getD 0)
  | none =>
    let a := mgToSizeT v
    (if a.isSome then 1 else 0, a.getD 0, 0)

/-- `getrange`, with both limits zero before. -/
def getrange : Bytes → Nat × Nat × Nat
  | [] => (0, 0, 0)
  | c :: s =>
    if (c :: s).length ≤ 6 then (0, 0, 0)
    else if (c :: s).take 6 = ascii "bytes=" then limits ((c :: s).drop 6)
    else getrange s

/-- What a file has in the file system. -/
structure Stat where
  size : Nat
  mtime : Int
  small : size < 2 ^ 63
  stamp : mtime.natAbs ≤ 2 ^ 63

/-- The status of the answer, the value of its header for the range, and the part of the file. -/
structure Answer where
  status : Int
  range : Option Bytes
  first : Nat
  cl : Nat
  deriving DecidableEq

/-- The branch of `mg_http_serve_file` for the header `Range`. -/
def answer (size : Nat) (rh : Option Bytes) : Answer :=
  let r := (rh.map getrange).getD (0, 0, 0)
  if r.1 = 0 then ⟨200, none, 0, size⟩
  else
    let r1 := r.2.1
    let r2 := if r.1 = 1 then (2 ^ 64 + size - 1) % 2 ^ 64 else r.2.2
    if r2 < r1 ∨ size ≤ r2 then ⟨416, some (ascii "bytes */" ++ decimal size), 0, 0⟩
    else
      let cl := r2 - r1 + 1
      ⟨206, some (ascii "bytes " ++ decimal r1 ++ ascii "-" ++ decimal (r1 + cl - 1) ++ ascii "/" ++
        decimal size), r1, cl⟩

def mgHttpEtag (st : Stat) : Bytes :=
  snprintf 64 (ascii "\"" ++ decimalInt st.mtime ++ ascii "." ++ decimal st.size ++ ascii "\"")

/-- The head that `mg_http_serve_file` writes; there are no extra headers. -/
def serveHead (st : Stat) (mime : Bytes) (gzip : Bool) (a : Answer) : Bytes :=
  ascii "HTTP/1.1 " ++ decimalInt a.status ++ [32] ++ mgHttpStatusCodeStr a.status ++ crlf ++
    ascii "Content-Type: " ++ mime ++ crlf ++ ascii "Etag: " ++ mgHttpEtag st ++ crlf ++
    ascii "Content-Length: " ++ decimal a.cl ++ crlf ++
    (if gzip then ascii "Content-Encoding: gzip\r\n" else []) ++
    (a.range.elim [] fun r => snprintf 100 (ascii "Content-Range: " ++ r ++ crlf)) ++ crlf

/-- The end of `mg_http_serve_file`, for an open file: what it appends to the send buffer, and, where
`static_cb` takes over, the place in the file and the number of bytes. -/
def serveOpen (st : Stat) (mime : Bytes) (gzip isClosing : Bool) (hm : HttpMessage) (send : Bytes) :
    Bytes × Option (Nat × Nat) :=
  if (mgHttpGetHeader hm "If-None-Match").any fun inm => sameName inm (mgHttpEtag st) then
    (mgHttpReply send 304 [] [], none)
  else
    let a := answer st.size (mgHttpGetHeader hm "Range")
    (send ++ serveHead st mime gzip a,
      if sameName hm.method (ascii "HEAD") = true ∨ isClosing = true then none else some (a.first, a.cl))

example : (answer 1000 (some (ascii "bytes=200-299"))) =
    ⟨206, some (ascii "bytes 200-299/1000"), 200, 100⟩ := by decide +kernel

section Answers

variable {size : Nat} {rh : Option Bytes}

/-- The answer is the whole file, a part of it that the header names, or nothing of it. -/
theorem answer_cases (size : Nat) (rh : Option Bytes) :
    (answer size rh).status = 200 ∧ (answer size rh).range = none ∧ (answer size rh).first = 0 ∧
      (answer size rh).cl = size ∨
    (answer size rh).status = 416 ∧ (answer size rh).range = some (ascii "bytes */" ++ decimal size) ∧
      (answer size rh).first = 0 ∧ (answer size rh).cl = 0 ∨
    (answer size rh).status = 206 ∧ 0 < (answer size rh).cl ∧
      (answer size rh).first + (answer size rh).cl ≤ size ∧
      (answer size rh).range = some (ascii "bytes " ++ decimal (answer size rh).first ++ ascii "-" ++
        decimal ((answer size rh).first + (answer size rh).cl - 1) ++ ascii "/" ++ decimal size) := by
  rw [answer]
  split
  · exact Or.inl ⟨rfl, rfl, rfl, rfl⟩
  · dsimp only
    generalize (if ((rh.map getrange).getD (0, 0, 0)).1 = 1 then (2 ^ 64 + size - 1) % 2 ^ 64
      else ((rh.map getrange).getD (0, 0, 0)).2.2) = r2
    split
    · exact Or.inr (Or.inl ⟨rfl, rfl, rfl, rfl⟩)
    · next h =>
      refine Or.inr (Or.inr ⟨rfl, Nat.succ_pos _, ?_, rfl⟩)
      dsimp only
      omega

theorem answer_within (size : Nat) (rh : Option Bytes) :
    (answer size rh).first + (answer size rh).cl ≤ size := by
  rcases answer_cases size rh with ⟨-, -, hfirst, hcl⟩ | ⟨-, -, hfirst, hcl⟩ | ⟨-, -, hle, -⟩
  · rw [hfirst, hcl, Nat.zero_add]
  · rw [hfirst, hcl]
    exact Nat.zero_le size
  · exact hle

end Answers

section Values

theorem known_value : (sKnownTypes.all fun t => isValue (ascii t.2)) = true := by decide +kernel

private theorem set_value :
    ((mimeTypes.splitOn 44).all fun e => isValue (spanValue e)) = true := by decide +kernel

private theorem default_value :
    Value (ascii "text/plain; charset=utf-8") := value_of_check (by decide +kernel)

/-- The type that is guessed can stand in a header. -/
theorem mime_value (path : Bytes) : Value (guessContentType path mimeTypes) := by
  rw [guessContentType]
  split
  · next e he =>
    exact value_of_check (List.all_eq_true.mp set_value e (List.mem_of_find?_eq_some he))
  · cases hfind : sKnownTypes.find? fun t =>
        decide (ascii t.1 = (path.reverse.takeWhile (· ≠ 46)).reverse) with
    | none => exact default_value
    | some t => exact value_of_check (List.all_eq_true.mp known_value t (List.mem_of_find?_eq_some hfind))

variable {size : Nat} {rh : Option Bytes} {st : Stat}

theorem range_value {r : Bytes} (h : (answer size rh).range = some r) : Value r := by
  have hbytes : ascii "bytes " = ascii "bytes" ++ [32] := by decide
  have hword : (ascii "bytes").all wordByte = true := by decide
  have hdash : (ascii "-").all wordByte = true := by decide
  have hslash : (ascii "/").all wordByte = true := by decide
  rcases answer_cases size rh with ⟨-, hr, -⟩ | ⟨-, hr, -⟩ | ⟨-, -, -, hr⟩
  · rw [hr] at h
    cases h
  · obtain rfl := Option.some.inj (h.symm.trans hr)
    have hsplit : ascii "bytes */" ++ decimal size = ascii "bytes" ++ 32 :: (ascii "*/" ++ decimal size) := by
      rw [show ascii "bytes */" = ascii "bytes" ++ 32 :: ascii "*/" by decide, List.append_assoc,
        List.cons_append]
    have hstar : (ascii "*/").all wordByte = true := by decide
    rw [hsplit]
    refine value_pair (List.all_eq_true.mp hword) (fun c hc => ?_) (by decide)
      (List.append_ne_nil_of_left_ne_nil (by decide) _)
    rcases List.mem_append.mp hc with hc | hc
    · exact List.all_eq_true.mp hstar c hc
    · exact decimal_word size c hc
  · obtain rfl := Option.some.inj (h.symm.trans hr)
    generalize (answer size rh).first = a, (answer size rh).first + (answer size rh).cl - 1 = b
    have hall : ∀ c ∈ decimal a ++ (ascii "-" ++ (decimal b ++ (ascii "/" ++ decimal size))),
        wordByte c = true := by
      intro c hc
      simp only [List.mem_append] at hc
      rcases hc with hc | hc | hc | hc | hc
      · exact decimal_word a c hc
      · exact List.all_eq_true.mp hdash c hc
      · exact decimal_word b c hc
      · exact List.all_eq_true.mp hslash c hc
      · exact decimal_word size c hc
    rw [hbytes]
    simp only [List.append_assoc, List.singleton_append]
    exact value_pair (List.all_eq_true.mp hword) hall (by decide)
      (List.append_ne_nil_of_left_ne_nil (Json.Build.decimal_digits a).1 _)

private theorem etag_eq (st : Stat) : mgHttpEtag st =
    ascii "\"" ++ decimalInt st.mtime ++ ascii "." ++ decimal st.size ++ ascii "\"" := by
  have hsmall := st.small
  have hstamp := st.stamp
  have htime : (decimalInt st.mtime).length ≤ 20 :=
    Json.Build.decimalInt_length (e := 19) (by omega) (by decide)
  have hsize : (decimal st.size).length ≤ 19 := Json.Build.decimal_length (by omega) (by decide)
  have hquote : (ascii "\"").length = 1 := by decide
  have hpoint : (ascii ".").length = 1 := by decide
  rw [mgHttpEtag, snprintf_fits]
  simp only [List.length_append, hquote, hpoint]
  omega

theorem etag_value (st : Stat) : Value (mgHttpEtag st) := by
  have hquote : (ascii "\"").all wordByte = true := by decide
  have hpoint : (ascii ".").all wordByte = true := by decide
  rw [etag_eq]
  refine value_words fun c hc => ?_
  simp only [List.mem_append] at hc
  rcases hc with (((hc | hc) | hc) | hc) | hc
  · exact List.all_eq_true.mp hquote c hc
  · exact (decimalInt_word _ c hc).1
  · exact List.all_eq_true.mp hpoint c hc
  · exact decimal_word _ c hc
  · exact List.all_eq_true.mp hquote c hc

private theorem decimal_value (n : Nat) : Value (decimal n) := value_words (decimal_word n)

theorem gzip_value : Value (ascii "gzip") := value_of_check (by decide)

theorem etag_name : Name (ascii "Etag") := name_of_check (by decide)
theorem encoding_name : Name (ascii "Content-Encoding") := name_of_check (by decide)
theorem range_name : Name (ascii "Content-Range") := name_of_check (by decide)

end Values

section Lines

variable {st : Stat} {mime : Bytes} {gzip : Bool} {rh : Option Bytes}

private theorem decimal_short {n : Nat} (h : n < 2 ^ 63) : (decimal n).length ≤ 19 :=
  Json.Build.decimal_length (by omega) (by decide)

/-- The range fits into its buffer. -/
private theorem range_length {size : Nat} (small : size < 2 ^ 63) {r : Bytes}
    (h : (answer size rh).range = some r) :
    r.length ≤ 65 := by
  have hsize := decimal_short small
  have hbytes : (ascii "bytes ").length = 6 := by decide
  have hstar : (ascii "bytes */").length = 8 := by decide
  have hdash : (ascii "-").length = 1 := by decide
  have hslash : (ascii "/").length = 1 := by decide
  rcases answer_cases size rh with ⟨-, hr, -⟩ | ⟨-, hr, -⟩ | ⟨-, hpos, hle, hr⟩
  · rw [hr] at h
    cases h
  · obtain rfl := Option.some.inj (h.symm.trans hr)
    simp only [List.length_append, hstar]
    omega
  · obtain rfl := Option.some.inj (h.symm.trans hr)
    have hfirst := decimal_short (n := (answer size rh).first) (by omega)
    have hlast := decimal_short (n := (answer size rh).first + (answer size rh).cl - 1) (by omega)
    simp only [List.length_append, hbytes, hdash, hslash]
    omega

def rangeLine (r : Option Bytes) (h : ∀ v, r = some v → Value v) : List Header :=
  match r, h with
  | none, _ => []
  | some v, h => [.plain range_name (h v rfl)]

/-- The headers of the response. -/
def serveLines (st : Stat) (gzip : Bool) (hm : Value mime) (rh : Option Bytes) : List Header :=
  [.plain type_name hm, .plain etag_name (etag_value st),
    .plain length_name (decimal_value (answer st.size rh).cl)] ++
    ((if gzip then [.plain encoding_name gzip_value] else []) ++
      rangeLine (answer st.size rh).range fun _ => range_value)

private theorem plain_text {name value : Bytes} (named : Name name) (h : Value value) :
    (Header.plain named h).text = name ++ ascii ": " ++ value ++ crlf := by
  have hsep : ascii ": " = [58, 32] := by decide
  have htext : (Header.plain named h).text = name ++ 58 :: 32 :: (value ++ []) ++ crlf := rfl
  rw [htext, hsep, List.append_nil]
  simp only [List.append_assoc, List.cons_append, List.nil_append]

private theorem rangeLine_text {r : Option Bytes} (h : ∀ v, r = some v → Value v)
    (short : ∀ v, r = some v → v.length ≤ 65) : (rangeLine r h).flatMap Header.text =
      r.elim [] fun v => snprintf 100 (ascii "Content-Range: " ++ v ++ crlf) := by
  cases r with
  | none => rfl
  | some v =>
    have hlen := short v rfl
    have hname : ascii "Content-Range: " = ascii "Content-Range" ++ ascii ": " := by decide
    have hlabel : (ascii "Content-Range: ").length = 15 := by decide
    have hfits : (ascii "Content-Range: " ++ v ++ crlf).length < 100 := by
      simp only [List.length_append, hlabel, crlf, List.length_cons, List.length_nil]
      omega
    rw [Option.elim_some, snprintf_fits hfits, rangeLine, List.flatMap_singleton, plain_text, hname]

/-- The head is made of the lines. -/
theorem serveHead_lines (st : Stat) (gzip : Bool) (hm : Value mime) (rh : Option Bytes) :
    serveHead st mime gzip (answer st.size rh) =
      headText (startLine (answer st.size rh).status) (serveLines st gzip hm rh) ++ crlf := by
  have hfirst : ascii "HTTP/1.1 " = ascii "HTTP/1.1" ++ [32] := by decide
  have htype : ascii "Content-Type: " = ascii "Content-Type" ++ ascii ": " := by decide
  have hetag : ascii "Etag: " = ascii "Etag" ++ ascii ": " := by decide
  have hlength : ascii "Content-Length: " = ascii "Content-Length" ++ ascii ": " := by decide
  have hgzip : (if gzip then [Header.plain encoding_name gzip_value] else []).flatMap Header.text =
      if gzip then ascii "Content-Encoding: gzip\r\n" else [] := by
    cases gzip with
    | false => rfl
    | true =>
      rw [if_pos rfl, if_pos rfl, List.flatMap_singleton, plain_text]
      decide
  have hvalue : ∀ v, (answer st.size rh).range = some v → Value v := fun _ => range_value
  have hrange := rangeLine_text hvalue fun v => range_length st.small
  have hstart : (startLine (answer st.size rh).status).content = ascii "HTTP/1.1" ++ 32 ::
      (decimalInt (answer st.size rh).status ++ 32 :: mgHttpStatusCodeStr (answer st.size rh).status) := rfl
  rw [headText, serveLines, List.flatMap_append, List.flatMap_append, hgzip, hrange, hstart, serveHead,
    hfirst, htype, hetag, hlength]
  simp only [List.flatMap_cons, List.flatMap_nil, plain_text, List.append_assoc, List.cons_append,
    List.nil_append, List.append_nil]

private theorem rangeLine_length (r : Option Bytes) (h : ∀ v, r = some v → Value v) :
    (rangeLine r h).length ≤ 1 := by
  cases r with
  | none => exact Nat.zero_le 1
  | some v => exact Nat.le_refl 1

private theorem serveLines_length (hm : Value mime) : (serveLines st gzip hm rh).length ≤ 5 := by
  have hrange := rangeLine_length (answer st.size rh).range fun _ => range_value
  have hgzip : (if gzip then [Header.plain encoding_name gzip_value] else []).length ≤ 1 := by
    cases gzip with
    | false => exact Nat.zero_le 1
    | true => exact Nat.le_refl 1
  rw [serveLines, List.length_append, List.length_append]
  simp only [List.length_cons, List.length_nil]
  omega

private theorem serveLines_given (hm : Value mime) :
    mgHttpGetHeaderIn ((serveLines st gzip hm rh).map Header.pair) "Content-Length" =
      some (decimal (answer st.size rh).cl) := by
  have htype : sameName (ascii "Content-Length") (ascii "Content-Type") = false := by decide
  have hetag : sameName (ascii "Content-Length") (ascii "Etag") = false := by decide
  have hsame : sameName (ascii "Content-Length") (ascii "Content-Length") = true := by decide
  rw [serveLines, mgHttpGetHeaderIn]
  simp only [List.map_append, List.map_cons, List.cons_append, Header.pair, Header.plain]
  rw [List.find?_cons_of_neg (by rw [htype]; decide), List.find?_cons_of_neg (by rw [hetag]; decide),
    List.find?_cons_of_pos (by exact hsame)]
  rfl

private theorem known_short :
    (sKnownTypes.all fun t => (ascii t.2).length ≤ 32) = true := by decide +kernel

private theorem set_short :
    ((mimeTypes.splitOn 44).all fun e => (spanValue e).length ≤ 32) = true := by decide +kernel

theorem mime_short (path : Bytes) : (guessContentType path mimeTypes).length ≤ 32 := by
  rw [guessContentType]
  split
  · next e he =>
    exact of_decide_eq_true (List.all_eq_true.mp set_short e (List.mem_of_find?_eq_some he))
  · cases hfind : sKnownTypes.find? fun t =>
        decide (ascii t.1 = (path.reverse.takeWhile (· ≠ 46)).reverse) with
    | none => exact (by decide : (ascii "text/plain; charset=utf-8").length ≤ 32)
    | some t =>
      exact of_decide_eq_true (List.all_eq_true.mp known_short t (List.mem_of_find?_eq_some hfind))

private theorem status_short (size : Nat) (rh : Option Bytes) :
    (decimalInt (answer size rh).status).length = 3 ∧
      (mgHttpStatusCodeStr (answer size rh).status).length ≤ 32 := by
  rcases answer_cases size rh with ⟨h, -⟩ | ⟨h, -⟩ | ⟨h, -⟩
  · rw [h]
    decide
  · rw [h]
    decide
  · rw [h]
    decide

private theorem etag_short (st : Stat) : (mgHttpEtag st).length ≤ 64 := by
  rw [mgHttpEtag, snprintf, List.length_take]
  exact Nat.le_trans (Nat.min_le_left _ _) (by decide)

private theorem serveHead_short (st : Stat) (gzip : Bool) (short : mime.length ≤ 32)
    (rh : Option Bytes) :
    (serveHead st mime gzip (answer st.size rh)).length ≤ 400 := by
  obtain ⟨hstatus, htext⟩ := status_short st.size rh
  have hetag := etag_short st
  have hcl : (decimal (answer st.size rh).cl).length ≤ 19 := by
    have hsmall := st.small
    have hle := answer_within st.size rh
    exact decimal_short (by omega)
  have hgzip : (if gzip then ascii "Content-Encoding: gzip\r\n" else []).length ≤ 24 := by
    cases gzip with
    | false => exact Nat.zero_le 24
    | true => exact Nat.le_refl 24
  have hrange : ((answer st.size rh).range.elim [] fun r =>
      snprintf 100 (ascii "Content-Range: " ++ r ++ crlf)).length ≤ 99 := by
    cases (answer st.size rh).range with
    | none => exact Nat.zero_le 99
    | some r =>
      rw [Option.elim_some, snprintf, List.length_take]
      exact Nat.min_le_left _ _
  have hwords : (ascii "HTTP/1.1 ").length = 9 ∧ (ascii "Content-Type: ").length = 14 ∧
      (ascii "Etag: ").length = 6 ∧ (ascii "Content-Length: ").length = 16 ∧ crlf.length = 2 := by decide
  obtain ⟨hversion, htype, htag, hlength, hcrlf⟩ := hwords
  rw [serveHead]
  simp only [List.length_append, hversion, htype, htag, hlength, hcrlf, hstatus, List.length_cons,
    List.length_nil]
  omega

variable (st gzip rh) in
/-- A client reads the head back: the status, the headers, and the length that `static_cb` is to send. -/
theorem parse_serve (hm : Value mime) (short : mime.length ≤ 32) (rest : Bytes) :
    mgHttpParse (serveHead st mime gzip (answer st.size rh) ++ rest) =
      .ok (answerHead (answer st.size rh).status (serveLines st gzip hm rh) (answer st.size rh).cl) := by
  have hhead := serveHead_short st gzip short rh
  have hsmall := st.small
  have hle := answer_within st.size rh
  rw [serveHead_lines st gzip hm rh] at hhead ⊢
  exact parse_answer _ (Nat.lt_of_le_of_lt (serveLines_length hm) (by decide)) (serveLines_given hm)
    (by omega) rest

end Lines

section Limits

/-- What stands before a separator and behind it. -/
private theorem mgSpan_append {k : Bytes} {sep : UInt8} (h : ∀ c ∈ k, c ≠ sep) (v : Bytes) :
    mgSpan (k ++ sep :: v) sep = some (k, v) := by
  have hall : ∀ c ∈ k, decide (c ≠ sep) = true := fun c hc => decide_eq_true (h c hc)
  have hstop : decide (sep ≠ sep) = false := decide_eq_false (not_not.mpr rfl)
  rw [mgSpan, if_neg (List.append_ne_nil_of_right_ne_nil k (List.cons_ne_nil sep v)),
    List.takeWhile_append_of_pos hall, List.dropWhile_append_of_pos hall,
    List.takeWhile_cons_of_neg (by rw [hstop]; decide),
    List.dropWhile_cons_of_neg (by rw [hstop]; decide), List.append_nil]
  rfl

private theorem decimal_dash (n : Nat) : ∀ c ∈ decimal n, c ≠ 45 := by
  rintro c hc rfl
  exact absurd ((Json.Build.decimal_digits n).2 45 hc) (by decide)

private theorem getrange_bytes {v : Bytes} (h : v ≠ []) :
    getrange (ascii "bytes=" ++ v) = limits v := by
  obtain ⟨c, t, rfl⟩ := List.exists_cons_of_ne_nil h
  have htext : ascii "bytes=" ++ c :: t = 98 :: 121 :: 116 :: 101 :: 115 :: 61 :: c :: t := by
    rw [show ascii "bytes=" = [98, 121, 116, 101, 115, 61] by decide]
    rfl
  have hprefix : ([98, 121, 116, 101, 115, 61] : Bytes) = ascii "bytes=" := by decide
  rw [htext, getrange, if_neg (by simp only [List.length_cons]; omega), if_pos]
  · rfl
  · exact hprefix

variable {a b size : Nat}

/-- A range with both ends. -/
theorem getrange_both (ha : a ≤ SIZE_MAX) (hb : b ≤ SIZE_MAX) :
    getrange (ascii "bytes=" ++ (decimal a ++ 45 :: decimal b)) = (2, a, b) := by
  have hne : decimal b ≠ [] := (Json.Build.decimal_digits b).1
  rw [getrange_bytes (List.append_ne_nil_of_right_ne_nil _ (List.cons_ne_nil 45 _)), limits,
    mgSpan_append (decimal_dash a)]
  dsimp only
  rw [if_neg hne, mgToSizeT_decimal ha, mgToSizeT_decimal hb]
  rfl

/-- A range without an end. -/
theorem getrange_from (ha : a ≤ SIZE_MAX) :
    getrange (ascii "bytes=" ++ (decimal a ++ 45 :: [])) = (1, a, 0) := by
  rw [getrange_bytes (List.append_ne_nil_of_right_ne_nil _ (List.cons_ne_nil 45 _)), limits,
    mgSpan_append (decimal_dash a)]
  dsimp only
  rw [if_pos rfl, mgToSizeT_decimal ha]
  rfl

/-- A range without a beginning. -/
theorem getrange_last (hb : b ≤ SIZE_MAX) :
    getrange (ascii "bytes=" ++ 45 :: decimal b) = (1, 0, b) := by
  have hempty : mgSpan ([] ++ 45 :: decimal b) 45 = some ([], decimal b) :=
    mgSpan_append (fun c hc => absurd hc List.not_mem_nil) (decimal b)
  have hnone : mgToSizeT [] = none := by decide
  rw [List.nil_append] at hempty
  rw [getrange_bytes (List.cons_ne_nil 45 _), limits, hempty]
  dsimp only
  rw [if_neg (Json.Build.decimal_digits b).1, mgToSizeT_decimal hb, hnone]
  rfl

end Limits

end Cyctron.Http.Ranges
