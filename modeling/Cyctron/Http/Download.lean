/- Cyctron/Http/Download
   digest: What a client reads of a file that mg_http_serve_file and static_cb send it. -/

import Cyctron.Http.Serving

set_option autoImplicit false
set_option relaxedAutoImplicit false

namespace Cyctron.Http.Download

open Cyctron.Base.CString Cyctron.Http.Heads Cyctron.Http.Message Cyctron.Http.Parse
open Cyctron.Http.Ranges Cyctron.Http.Reply Cyctron.Http.Serving Cyctron.Mongoose.Iobuf
open Cyctron.Http.Stream (header)
open Cyctron.Machine.Framing (Reader play)
open Cyctron.Machine.Labelled (System Path Run)
open Cyctron.Mongoose.Query

/-- An honest answer about a file: the whole of it, nothing, or the part that the head names. -/
def Honest (file : Bytes) (h : Head) (body : Bytes) : Prop :=
  body.length = h.bodyLen ∧
    (h.uri = ascii "200" ∧ header h "Content-Range" = none ∧ body = file ∨
    h.uri = ascii "416" ∧ header h "Content-Range" = some (ascii "bytes */" ++ decimal file.length) ∧
      body = [] ∨
    h.uri = ascii "206" ∧ ∃ a b, a ≤ b ∧ b < file.length ∧
      header h "Content-Range" = some (ascii "bytes " ++ decimal a ++ ascii "-" ++ decimal b ++ ascii "/" ++
        decimal file.length) ∧ body = (file.drop a).take (b + 1 - a))

/-- The ranges that a client writes: with both ends, without an end, without a beginning. -/
inductive Ask
  | both (a b : Nat)
  | since (a : Nat)
  | last (n : Nat)
  deriving DecidableEq

def Ask.text : Ask → Bytes
  | .both a b => ascii "bytes=" ++ (decimal a ++ 45 :: decimal b)
  | .since a => ascii "bytes=" ++ (decimal a ++ 45 :: [])
  | .last n => ascii "bytes=" ++ 45 :: decimal n

/-- The numbers are no larger than the greatest size. -/
def Ask.Sane : Ask → Prop
  | .both a b => a ≤ SIZE_MAX ∧ b ≤ SIZE_MAX
  | .since a => a ≤ SIZE_MAX
  | .last n => n ≤ SIZE_MAX

/-- What is granted of a file of this size: a first byte and a length. A range without a beginning
gets the whole file. -/
def Ask.granted (size : Nat) : Ask → Option (Nat × Nat)
  | .both a b => if a ≤ b ∧ b < size then some (a, b + 1 - a) else none
  | .since a => if a < size then some (a, size - a) else none
  | .last _ => if 0 < size then some (0, size) else none

section Reading

variable {st : Stat} {mime : Bytes} {gzip : Bool} {rh : Option Bytes} {part rest : Bytes}

/-- A served part is the next record of the client. -/
private theorem drain_serve (hm : Value mime) (short : mime.length ≤ 32)
    (hlen : part.length = (answer st.size rh).cl) :
    replies.drain ⟨(), serveHead st mime gzip (answer st.size rh) ++ part ++ rest⟩ =
      ((replies.drain ⟨(), rest⟩).1,
        (answerHead (answer st.size rh).status (serveLines st gzip hm rh) (answer st.size rh).cl, part) ::
          (replies.drain ⟨(), rest⟩).2) := by
  have hparse := parse_serve st gzip rh hm short (part ++ rest)
  have hhead : (answerHead (answer st.size rh).status (serveLines st gzip hm rh)
      (answer st.size rh).cl).len = (serveHead st mime gzip (answer st.size rh)).length := by
    rw [serveHead_lines st gzip hm rh]
    rfl
  have hnext := nextReply_found hparse hhead hlen.symm ()
  rw [← replies_next] at hnext
  rw [Reader.drain_next (p := ⟨(), _⟩) hnext]
  dsimp only
  rw [List.drop_left, List.singleton_append]

variable (gzip rest) in
/-- Earlier responses are read first, then the served part, then what follows. -/
private theorem feed_serve (hm : Value mime) (short : mime.length ≤ 32)
    (hlen : part.length = (answer st.size rh).cl) {rs : List Response} {chunks : List Bytes}
    (same : chunks.flatten = rs.foldl Response.write [] ++
      (serveHead st mime gzip (answer st.size rh) ++ part ++ rest)) :
    replies.feedAll ⟨(), []⟩ chunks = ((replies.drain ⟨(), rest⟩).1, rs.map Response.read ++
      (answerHead (answer st.size rh).status (serveLines st gzip hm rh) (answer st.size rh).cl, part) ::
        (replies.drain ⟨(), rest⟩).2) := by
  rw [foldl_write, List.nil_append] at same
  rw [Reader.feedAll_flatten (replies.waits_nil ()), Reader.feed, List.nil_append, same,
    replies_reads.drain (fun _ _ => trivial), play_read, drain_serve hm short hlen]

variable {closing : Bool} {hm : HttpMessage} {send b : Bytes} {first cl : Nat}

/-- Where `static_cb` takes over, the head has been queued. -/
private theorem serveOpen_some (h : serveOpen st mime gzip closing hm send = (b, some (first, cl))) :
    b = send ++ serveHead st mime gzip (answer st.size (mgHttpGetHeader hm "Range")) ∧
      first = (answer st.size (mgHttpGetHeader hm "Range")).first ∧
      cl = (answer st.size (mgHttpGetHeader hm "Range")).cl := by
  rw [serveOpen] at h
  split at h
  · cases (Prod.mk.inj h).2
  · obtain ⟨rfl, hplace⟩ := Prod.mk.inj h
    split at hplace
    · cases hplace
    · obtain ⟨rfl, rfl⟩ := Prod.mk.inj (Option.some.inj hplace)
      exact ⟨rfl, rfl, rfl⟩

end Reading

section Answers

variable {st : Stat} {mime : Bytes} {gzip : Bool} {rh : Option Bytes} {file : Bytes}

private theorem rangeLine_found (r : Option Bytes) (h : ∀ v, r = some v → Value v) :
    mgHttpGetHeaderIn ((rangeLine r h).map Header.pair) "Content-Range" = r := by
  cases r with
  | none => rfl
  | some v =>
    have hsame : sameName (ascii "Content-Range") (ascii "Content-Range") = true := by decide
    rw [rangeLine, mgHttpGetHeaderIn]
    simp only [List.map_cons, Header.pair, Header.plain]
    rw [List.find?_cons_of_pos (by exact hsame)]
    rfl

variable (st gzip rh) in
/-- The head names the range of the answer. -/
private theorem serveLines_range (hm : Value mime) :
    mgHttpGetHeaderIn ((serveLines st gzip hm rh).map Header.pair) "Content-Range" =
      (answer st.size rh).range := by
  have htype : sameName (ascii "Content-Range") (ascii "Content-Type") = false := by decide
  have hetag : sameName (ascii "Content-Range") (ascii "Etag") = false := by decide
  have hlength : sameName (ascii "Content-Range") (ascii "Content-Length") = false := by decide
  have hgzip : sameName (ascii "Content-Range") (ascii "Content-Encoding") = false := by decide
  have hrange := rangeLine_found (answer st.size rh).range fun _ => range_value
  rw [mgHttpGetHeaderIn] at hrange ⊢
  rw [serveLines]
  simp only [List.map_append, List.map_cons, List.cons_append, List.nil_append]
  rw [List.find?_cons_of_neg (by exact ne_true_of_eq_false htype),
    List.find?_cons_of_neg (by exact ne_true_of_eq_false hetag),
    List.find?_cons_of_neg (by exact ne_true_of_eq_false hlength)]
  cases gzip with
  | false => exact hrange
  | true =>
    rw [if_pos rfl, List.map_cons, List.map_nil, List.cons_append, List.nil_append,
      List.find?_cons_of_neg (by exact ne_true_of_eq_false hgzip)]
    exact hrange

private theorem honest_answer (hm : Value mime) (size : file.length = st.size) :
    Honest file (answerHead (answer st.size rh).status (serveLines st gzip hm rh) (answer st.size rh).cl)
      ((file.drop (answer st.size rh).first).take (answer st.size rh).cl) := by
  have hrange := serveLines_range st gzip rh hm
  have hwithin := answer_within st.size rh
  have hlen : ((file.drop (answer st.size rh).first).take (answer st.size rh).cl).length =
      (answer st.size rh).cl := by
    rw [List.length_take, List.length_drop]
    omega
  refine ⟨hlen, ?_⟩
  rcases answer_cases st.size rh with ⟨hs, hr, hf, hc⟩ | ⟨hs, hr, hf, hc⟩ | ⟨hs, hpos, hle, hr⟩
  · refine Or.inl ⟨?_, hrange.trans hr, ?_⟩
    · change decimalInt (answer st.size rh).status = _
      rw [hs]
      decide
    · rw [hf, hc, List.drop_zero, List.take_of_length_le (Nat.le_of_eq size)]
  · refine Or.inr (Or.inl ⟨?_, ?_, ?_⟩)
    · change decimalInt (answer st.size rh).status = _
      rw [hs]
      decide
    · rw [size]
      exact hrange.trans hr
    · rw [hc, List.take_zero]
  · refine Or.inr (Or.inr ⟨?_, (answer st.size rh).first,
      (answer st.size rh).first + (answer st.size rh).cl - 1, by omega, by omega, ?_, ?_⟩)
    · change decimalInt (answer st.size rh).status = _
      rw [hs]
      decide
    · rw [size]
      exact hrange.trans hr
    · rw [show (answer st.size rh).first + (answer st.size rh).cl - 1 + 1 - (answer st.size rh).first =
        (answer st.size rh).cl by omega]

end Answers

section Downloads

variable {st : Stat} {path file : Bytes} {gzip closing : Bool} {hm : HttpMessage} {rs : List Response}
  {io : MgIobuf} {first cl : Nat} {tr : List Sent} {c : FileConn} {chunks : List Bytes}

variable (rs chunks)

/-- What a client reads when the response has been sent in full. -/
private theorem read_part (opened : serveOpen st (guessContentType path mimeTypes) gzip closing hm
      (rs.foldl Response.write []) = (io.content, some (first, cl)))
    (tidy : Tidy io) (size : file.length = st.size)
    (run : Run (serving ⟨io, cl, file, first, true⟩) untouched tr c) (ended : .ended ∈ tr)
    (same : chunks.flatten = taken tr ++ c.send.content) :
    replies.feedAll ⟨(), []⟩ chunks = (⟨(), []⟩, rs.map Response.read ++
      [(answerHead (answer st.size (mgHttpGetHeader hm "Range")).status
          (serveLines st gzip (mime_value path) (mgHttpGetHeader hm "Range"))
          (answer st.size (mgHttpGetHeader hm "Range")).cl,
        (file.drop (answer st.size (mgHttpGetHeader hm "Range")).first).take
          (answer st.size (mgHttpGetHeader hm "Range")).cl)]) := by
  obtain ⟨hcontent, rfl, rfl⟩ := serveOpen_some opened
  have hwithin := answer_within st.size (mgHttpGetHeader hm "Range")
  have hsent := untouched_ended ⟨io, _, file, _, true⟩ tidy rfl (by dsimp only; omega) run ended
  have hlen : ((file.drop (answer st.size (mgHttpGetHeader hm "Range")).first).take
      (answer st.size (mgHttpGetHeader hm "Range")).cl).length =
        (answer st.size (mgHttpGetHeader hm "Range")).cl := by
    rw [List.length_take, List.length_drop]
    omega
  rw [hsent] at same
  dsimp only at same
  rw [hcontent, List.append_assoc, ← List.append_nil (List.take _ _), ← List.append_assoc _ _ []] at same
  rw [feed_serve gzip [] (mime_value path) (mime_short path) hlen same,
    Reader.drain_waits (replies.waits_nil ())]

/-- A client reads an honest answer about the file, behind the responses that were sent before. -/
theorem file_received (opened : serveOpen st (guessContentType path mimeTypes) gzip closing hm
      (rs.foldl Response.write []) = (io.content, some (first, cl)))
    (tidy : Tidy io) (size : file.length = st.size)
    (run : Run (serving ⟨io, cl, file, first, true⟩) untouched tr c) (ended : .ended ∈ tr)
    (same : chunks.flatten = taken tr ++ c.send.content) :
    ∃ h body, replies.feedAll ⟨(), []⟩ chunks = (⟨(), []⟩, rs.map Response.read ++ [(h, body)]) ∧
      Honest file h body :=
  ⟨_, _, read_part rs chunks opened tidy size run ended same, honest_answer (mime_value path) size⟩

/-- The branch for ranges, when there are limits. -/
private theorem answer_given {v : Bytes} {n r1 b r2 : Nat} (h : getrange v = (n, r1, b))
    (some_ : n ≠ 0) (size : Nat)
    (second : (if n = 1 then (2 ^ 64 + size - 1) % 2 ^ 64 else b) = r2) :
    (r1 ≤ r2 ∧ r2 < size → (answer size (some v)).status = 206 ∧ (answer size (some v)).first = r1 ∧
      (answer size (some v)).cl = r2 + 1 - r1) ∧
    (¬ (r1 ≤ r2 ∧ r2 < size) → (answer size (some v)).status = 416 ∧ (answer size (some v)).cl = 0) := by
  rw [answer, Option.map_some, h]
  dsimp only [Option.getD_some]
  rw [if_neg some_, second]
  constructor
  · intro hin
    rw [if_neg (by omega)]
    exact ⟨rfl, rfl, by dsimp only; omega⟩
  · intro hout
    rw [if_pos (by omega)]
    exact ⟨rfl, rfl⟩

/-- What the branch makes of the ranges that clients write. -/
private theorem answer_ask {a : Ask} (sane : a.Sane) {size : Nat} (small : size < 2 ^ 63) :
    match a.granted size with
    | some (first, n) => (answer size (some a.text)).status = 206 ∧
        (answer size (some a.text)).first = first ∧ (answer size (some a.text)).cl = n
    | none => (answer size (some a.text)).status = 416 ∧ (answer size (some a.text)).cl = 0 := by
  have hmax : SIZE_MAX = 18446744073709551615 := rfl
  cases a with
  | both a b =>
    obtain ⟨hin, hout⟩ := answer_given (getrange_both sane.1 sane.2) (by decide) size (if_neg (by decide))
    rw [Ask.text, Ask.granted]
    by_cases h : a ≤ b ∧ b < size
    · rw [if_pos h]
      exact hin h
    · rw [if_neg h]
      exact hout h
  | since a =>
    have ha : a ≤ SIZE_MAX := sane
    obtain ⟨hin, hout⟩ := answer_given (getrange_from ha) (by decide) size (if_pos rfl)
    rw [Ask.text, Ask.granted]
    by_cases h : a < size
    · obtain ⟨hstatus, hfirst, hcl⟩ := hin (by omega)
      rw [if_pos h]
      exact ⟨hstatus, hfirst, by omega⟩
    · rw [if_neg h]
      exact hout (by omega)
  | last n =>
    have hn : n ≤ SIZE_MAX := sane
    obtain ⟨hin, hout⟩ := answer_given (getrange_last hn) (by decide) size (if_pos rfl)
    rw [Ask.text, Ask.granted]
    by_cases h : 0 < size
    · obtain ⟨hstatus, hfirst, hcl⟩ := hin (by omega)
      rw [if_pos h]
      exact ⟨hstatus, hfirst, by omega⟩
    · rw [if_neg h]
      exact hout (by omega)

/-- A range with both ends or without an end is served exactly; one without a beginning gets the whole
file instead of its end. -/
theorem range_received {a : Ask} (sane : a.Sane) (asked : mgHttpGetHeader hm "Range" = some a.text)
    (opened : serveOpen st (guessContentType path mimeTypes) gzip closing hm
      (rs.foldl Response.write []) = (io.content, some (first, cl)))
    (tidy : Tidy io) (size : file.length = st.size)
    (run : Run (serving ⟨io, cl, file, first, true⟩) untouched tr c) (ended : .ended ∈ tr)
    (same : chunks.flatten = taken tr ++ c.send.content) :
    ∃ h body, replies.feedAll ⟨(), []⟩ chunks = (⟨(), []⟩, rs.map Response.read ++ [(h, body)]) ∧
      match a.granted file.length with
      | some (first, n) => h.uri = ascii "206" ∧ body = (file.drop first).take n ∧ body.length = n
      | none => h.uri = ascii "416" ∧ body = [] := by
  have hread := read_part rs chunks opened tidy size run ended same
  have hwithin := answer_within st.size (mgHttpGetHeader hm "Range")
  have hask := answer_ask sane st.small
  refine ⟨_, _, hread, ?_⟩
  rw [asked] at hwithin ⊢
  rw [size]
  cases hgranted : a.granted st.size with
  | some p =>
    rw [hgranted] at hask
    obtain ⟨hstatus, hfirst, hcl⟩ := hask
    refine ⟨?_, ?_, ?_⟩
    · change decimalInt (answer st.size (some a.text)).status = _
      rw [hstatus]
      decide
    · rw [hfirst, hcl]
    · rw [List.length_take, List.length_drop, size]
      omega
  | none =>
    rw [hgranted] at hask
    obtain ⟨hstatus, hcl⟩ := hask
    refine ⟨?_, ?_⟩
    · change decimalInt (answer st.size (some a.text)).status = _
      rw [hstatus]
      decide
    · rw [hcl, List.take_zero]

/-- A file that becomes shorter while it is sent ends its response early, and the client takes the
bytes that are missing from whatever comes next. -/
theorem cut_short (opened : serveOpen st (guessContentType path mimeTypes) gzip closing hm
      (rs.foldl Response.write []) = (io.content, some (first, cl)))
    (tidy : Tidy io) (size : file.length = st.size)
    (run : Run (serving ⟨io, cl, file, first, true⟩) taking tr c) :
    (Run (serving ⟨io, cl, file, first, true⟩) (lasting (first + cl)) tr c → .ended ∈ tr → c.cl = 0) ∧
    ∃ part, taken tr ++ c.send.content = io.content ++ part ∧ part.length + c.cl = cl ∧
      ∀ next, c.cl ≤ next.length → chunks.flatten = taken tr ++ c.send.content ++ next →
        ∃ h, h.bodyLen = cl ∧ replies.feedAll ⟨(), []⟩ chunks =
          ((replies.drain ⟨(), next.drop c.cl⟩).1, rs.map Response.read ++
            (h, part ++ next.take c.cl) :: (replies.drain ⟨(), next.drop c.cl⟩).2) := by
  obtain ⟨hcontent, rfl, rfl⟩ := serveOpen_some opened
  have hwithin := answer_within st.size (mgHttpGetHeader hm "Range")
  obtain ⟨part, hsofar⟩ := sofar_run ⟨io, _, file, _, true⟩ tidy rfl run
  have hcl := hsofar.cl
  refine ⟨fun hrun hended => ?_, part, hsofar.account, by rw [Nat.add_comm]; exact hcl, ?_⟩
  · obtain ⟨body, hwhole⟩ := whole_run ⟨io, _, file, _, true⟩ tidy rfl (by dsimp only; omega) hrun
    exact hwhole.complete (hwhole.sofar.ended.mp hended)
  · intro next hnext same
    have hlen : (part ++ next.take c.cl).length = (answer st.size (mgHttpGetHeader hm "Range")).cl := by
      rw [List.length_append, List.length_take_of_le hnext]
      dsimp only at hcl
      omega
    have haccount := hsofar.account
    dsimp only at haccount
    rw [haccount, hcontent] at same
    refine ⟨_, rfl, feed_serve gzip (next.drop c.cl) (mime_value path) (mime_short path) hlen ?_⟩
    rw [same]
    simp only [List.append_assoc, List.take_append_drop]

end Downloads

section Samples

theorem abc_small : 3 < 2 ^ 63 := by decide
theorem abc_stamp : (7 : Int).natAbs ≤ 2 ^ 63 := by decide

/-- A file of three bytes, of which a client asks for the last two. -/
def abc : Stat := ⟨3, 7, abc_small, abc_stamp⟩

theorem askLast_method : 0 ∉ ascii "GET" := by decide
theorem askLast_uri : 0 ∉ ascii "/a.txt" ∧ 63 ∉ ascii "/a.txt" := by decide
private theorem askLast_range : 0 ∉ ascii "bytes=1-2" := by decide

def askLast : HttpMessage where
  method := ascii "GET"
  uri := ascii "/a.txt"
  query := []
  headers := [(ascii "Range", ascii "bytes=1-2")]
  body := []
  method_plain := askLast_method
  uri_plain := askLast_uri
  query_plain := plain_nil
  headers_plain := List.forall_mem_singleton.mpr askLast_range
  body_size := Nat.two_pow_pos 64

def abcHead : Bytes := serveHead abc (guessContentType (ascii "./web/a.txt") mimeTypes) false
  (answer 3 (some (ascii "bytes=1-2")))

def abcIo : MgIobuf := ⟨abcHead, abcHead.length, 0⟩

private theorem abc_opened :
    serveOpen abc (guessContentType (ascii "./web/a.txt") mimeTypes) false false askLast [] =
    (abcIo.content, some (1, 2)) := by decide +kernel

private theorem abc_run : ∃ tr c, Run (serving ⟨abcIo, 2, ascii "abc", 1, true⟩) untouched tr c ∧
    .ended ∈ tr ∧ c.send.content = [] :=
  System.exec_reaches (serving ⟨abcIo, 2, ascii "abc", 1, true⟩) untouched [.write abcHead.length false, .write 2 false]
    (fun tr c => Sent.ended ∈ tr ∧ c.send.content = []) (by decide +kernel)

theorem file_received_sample : ∃ (tr : List Sent) (h : Head) (body : Bytes),
    replies.feedAll ⟨(), []⟩ [taken tr] = (⟨(), []⟩, [(h, body)]) ∧ Honest (ascii "abc") h body := by
  obtain ⟨tr, c, run, hended, hempty⟩ := abc_run
  obtain ⟨h, body, hread⟩ := file_received [] [taken tr] abc_opened
    (tidy_exact (by decide +kernel)) rfl run hended (by rw [hempty, List.append_nil]; exact List.append_nil _)
  exact ⟨tr, h, body, hread⟩

theorem range_received_sample : ∃ (tr : List Sent) (h : Head) (body : Bytes),
    replies.feedAll ⟨(), []⟩ [taken tr] = (⟨(), []⟩, [(h, body)]) ∧
      h.uri = ascii "206" ∧ body = ascii "bc" ∧ body.length = 2 := by
  obtain ⟨tr, c, run, hended, hempty⟩ := abc_run
  obtain ⟨h, body, hread⟩ := range_received [] [taken tr]
    (show (Ask.both 1 2).Sane by exact ⟨by decide, by decide⟩) (by decide +kernel) abc_opened (tidy_exact (by decide +kernel)) rfl run hended
    (by rw [hempty, List.append_nil]; exact List.append_nil _)
  exact ⟨tr, h, body, hread⟩

theorem cut_short_sample : ∃ (tr : List Sent) (c : FileConn) (h : Head) (part : Bytes), .ended ∈ tr ∧
    c.cl = 1 ∧ part.length + c.cl = 2 ∧ h.bodyLen = 2 ∧ replies.feedAll ⟨(), []⟩
      [taken tr ++ c.send.content ++ missing.bytes] =
        ((replies.drain ⟨(), missing.bytes.drop c.cl⟩).1,
          (h, part ++ missing.bytes.take c.cl) :: (replies.drain ⟨(), missing.bytes.drop c.cl⟩).2) := by
  obtain ⟨tr, c, run, hended, hcl⟩ := System.exec_reaches (serving ⟨abcIo, 2, ascii "abc", 1, true⟩) taking
    [.edit (ascii "ab"), .write abcHead.length false, .write 1 false]
    (fun tr c => Sent.ended ∈ tr ∧ c.cl = 1) (by decide +kernel)
  obtain ⟨-, part, -, hpart, hnext⟩ := cut_short []
    [taken tr ++ c.send.content ++ missing.bytes] abc_opened (tidy_exact (by decide +kernel)) rfl run
  obtain ⟨h, hlen, hread⟩ := hnext missing.bytes (by rw [hcl]; decide +kernel) (List.append_nil _)
  exact ⟨tr, c, h, part, hended, hcl, hpart, hlen, hread⟩

end Samples

end Cyctron.Http.Download
