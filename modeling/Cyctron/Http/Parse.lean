/- Cyctron/Http/Parse
   digest: The parser of mongoose.c for the head of a request, and what the requests it gives are made of. -/

import Cyctron.Mongoose.Query

set_option autoImplicit false
set_option relaxedAutoImplicit false

namespace Cyctron.Http.Parse

open Cyctron.Base.CString Cyctron.Http.Message Cyctron.Mongoose.Query

abbrev MG_MAX_HTTP_HEADERS : Nat := 30

def isok (c : UInt8) : Bool := c = 10 || c = 13 || c = 9 || 32 ≤ c

/-- The loop of `mg_http_get_request_len` at an index; the two bytes before it come with it. -/
def requestLenLoop : Nat → UInt8 → UInt8 → Bytes → Int
  | _, _, _, [] => 0
  | i, b, a, c :: s =>
    if isok c = false then -1
    else if (0 < i ∧ c = 10 ∧ a = 10) ∨ (3 < i ∧ c = 10 ∧ a = 13 ∧ b = 10) then i + 1
    else requestLenLoop (i + 1) a c s

def mgHttpGetRequestLen (buf : Bytes) : Int := requestLenLoop 0 0 0 buf

/-- A continuation byte of UTF-8. -/
def vcb (c : UInt8) : Bool := c &&& 0xc0 = 0x80

/-- The length of the character at the front; zero where none may stand. -/
def clen : Bytes → Nat
  | [] => 0
  | c :: s =>
    if 32 < c ∧ c ≤ 126 then 1
    else if c &&& 0xe0 = 0xc0 ∧ 1 ≤ s.length ∧ (s.take 1).all vcb = true then 2
    else if c &&& 0xf0 = 0xe0 ∧ 2 ≤ s.length ∧ (s.take 2).all vcb = true then 3
    else if c &&& 0xf8 = 0xf0 ∧ 3 ≤ s.length ∧ (s.take 3).all vcb = true then 4
    else 0

/-- The characters up to the first that does not stand in a word, or up to the stop; the count is
what is left of the character at hand. -/
def wordLoop (stop : Option UInt8) : Nat → Bytes → Bytes × Bytes
  | _, [] => ([], [])
  | n + 1, c :: s => (c :: (wordLoop stop n s).1, (wordLoop stop n s).2)
  | 0, c :: s =>
    if some c = stop then ([], c :: s)
    else match clen (c :: s) with
      | 0 => ([], c :: s)
      | n + 1 => (c :: (wordLoop stop n s).1, (wordLoop stop n s).2)

def word (stop : Option UInt8) (s : Bytes) : Bytes × Bytes := wordLoop stop 0 s

/-- `skiptorn`: the rest of the line, and what stands behind the line. -/
def skiptorn (s : Bytes) : Option (Bytes × Bytes) :=
  let v := s.takeWhile fun c => c ≠ 10 ∧ c ≠ 13
  match s.dropWhile fun c => c ≠ 10 ∧ c ≠ 13 with
  | 13 :: 10 :: rest => some (v, rest)
  | 10 :: rest => some (v, rest)
  | _ => none

def blank (c : UInt8) : Bool := c = 32 || c = 9

/-- `mg_http_parse_headers` with room for this many more. -/
def mgHttpParseHeaders : Nat → Bytes → Option (List (Bytes × Bytes))
  | 0, _ => some []
  | room + 1, s =>
    if s = [] then none
    else if s.head? = some 10 ∨ s.take 2 = [13, 10] then some []
    else
      let k := word (some 58) s
      if k.1 = [] ∨ k.2.head? ≠ some 58 then none
      else
        match skiptorn ((k.2.drop 1).dropWhile blank) with
        | none => none
        | some (v, rest) =>
          (mgHttpParseHeaders room rest).map (((k.1, (v.reverse.dropWhile blank).reverse)) :: ·)

def mgHttpGetHeaderIn (headers : List (Bytes × Bytes)) (name : String) : Option Bytes :=
  (headers.find? fun h => sameName (ascii name) h.1).map Prod.snd

def SIZE_MAX : Nat := 2 ^ 64 - 1

/-- The digits of `mg_to_size_t`: the number and what stands behind it. -/
def sizeDigits : Nat → Bytes → Option (Nat × Bytes)
  | result, [] => some (result, [])
  | result, c :: s =>
    if 48 ≤ c ∧ c ≤ 57 then
      if SIZE_MAX / 10 < result ∨ SIZE_MAX - (c.toNat - 48) < result * 10 then none
      else sizeDigits (result * 10 + (c.toNat - 48)) s
    else some (result, c :: s)

def mgToSizeT (str : Bytes) : Option Nat :=
  let s := str.dropWhile blank
  if s.head? = some 45 then none
  else match sizeDigits 0 s with
  | none => none
  | some (result, rest) =>
    if rest.length = s.length ∨ rest.dropWhile blank ≠ [] then none else some result

/-- The head of a request, its length and the length of its body; the greatest size stands for a
body without end. -/
structure Head where
  len : Nat
  method : Bytes
  uri : Bytes
  query : Bytes
  proto : Bytes
  headers : List (Bytes × Bytes)
  bodyLen : Nat
  deriving DecidableEq

def httpPrefix (s : Bytes) : Bool := 5 < s.length && sameName (s.take 5) (ascii "HTTP/")

def digit (c : Option UInt8) : Bool := c.any fun c => 48 ≤ c && c ≤ 57

/-- The version of a request, if it has one, is `HTTP/x.x`. -/
def versionOk (proto : Bytes) : Bool :=
  proto = [] || (httpPrefix proto && proto.length = 8 && digit proto[5]? && proto[6]? = some 46 &&
    digit proto[7]?)

/-- The end of `mg_http_parse`: the length of the body, unless the length of the message overflows. -/
def bodyLength (reqLen : Nat) (isResponse : Bool) (method uri : Bytes) (cl : Option Nat) : Option Nat :=
  let len := cl.getD SIZE_MAX
  let message := cl.elim SIZE_MAX fun n => (reqLen + n) % 2 ^ 64
  if len = SIZE_MAX ∧ isResponse = false ∧ sameName method (ascii "PUT") = false ∧
      sameName method (ascii "POST") = false then some 0
  else if len = SIZE_MAX ∧ isResponse = true ∧ sameName uri (ascii "204") = true then some 0
  else if message < reqLen then none
  else some len

/-- `mg_http_parse`; an error is its return code, zero for a head that is not complete. -/
def mgHttpParse (s : Bytes) : Except Int Head :=
  let reqLen := mgHttpGetRequestLen s
  if reqLen ≤ 0 then .error reqLen
  else
    let head := s.take reqLen.toNat
    let method := word none head
    let uri := word none (method.2.dropWhile (· = 32))
    let isResponse := httpPrefix method.1
    match skiptorn (uri.2.dropWhile (· = 32)) with
    | none => .error 0
    | some (proto, rest) =>
      if isResponse = false ∧ versionOk proto = false then .error (-1)
      else
        let query := (uri.1.dropWhile (· ≠ 63)).drop 1
        let path := uri.1.takeWhile (· ≠ 63)
        if method.1 = [] ∨ path = [] then .error (-1)
        else
          match mgHttpParseHeaders MG_MAX_HTTP_HEADERS rest with
          | none => .error (-1)
          | some headers =>
            let cl := mgHttpGetHeaderIn headers "Content-Length"
            if cl.map mgToSizeT = some none then .error (-1)
            else
              match bodyLength reqLen.toNat isResponse method.1 path (cl.bind mgToSizeT) with
              | none => .error (-1)
              | some len => .ok ⟨reqLen.toNat, method.1, path, query, proto, headers, len⟩

example : (mgHttpParse (ascii "GET /demo?a=1 HTTP/1.1\r\nHost: x \r\nAccept-Encoding:gzip\r\n\r\n")).toOption =
    some ⟨58, ascii "GET", ascii "/demo", ascii "a=1", ascii "HTTP/1.1",
      [(ascii "Host", ascii "x"), (ascii "Accept-Encoding", ascii "gzip")], 0⟩ := by decide +kernel

/-- The request is the one that the parser gives for the bytes. -/
structure Parsed (s : Bytes) (hm : HttpMessage) : Prop where
  parsed : ∃ p, mgHttpParse s = .ok p ∧ hm.method = p.method ∧ hm.uri = p.uri ∧ hm.query = p.query ∧
    hm.headers = p.headers ∧ hm.body = (s.drop p.len).take p.bodyLen

section Cuts

variable {s v rest : Bytes} {stop : Option UInt8}

private theorem wordLoop_split (n : Nat) (s : Bytes) :
    (wordLoop stop n s).1 ++ (wordLoop stop n s).2 = s := by
  induction s generalizing n with
  | nil => cases n <;> rfl
  | cons c s ih =>
    cases n with
    | succ n => rw [wordLoop, List.cons_append, ih]
    | zero =>
      rw [wordLoop]
      split
      · rfl
      · split
        · rfl
        · rw [List.cons_append, ih]

private theorem word_split (stop : Option UInt8) (s : Bytes) :
    (word stop s).1 ++ (word stop s).2 = s :=
  wordLoop_split 0 s

private theorem word_subset : (word stop s).1 ⊆ s ∧ (word stop s).2 ⊆ s := by
  have h := word_split stop s
  constructor
  · intro c hc
    rw [← h]
    exact List.mem_append_left _ hc
  · intro c hc
    rw [← h]
    exact List.mem_append_right _ hc

private theorem skiptorn_subset (h : skiptorn s = some (v, rest)) : v ⊆ s ∧ rest ⊆ s := by
  have htail : ∀ c ∈ s.dropWhile (fun c => decide (c ≠ 10 ∧ c ≠ 13)), c ∈ s :=
    fun c hc => (List.dropWhile_suffix _).subset hc
  have hv : s.takeWhile (fun c => decide (c ≠ 10 ∧ c ≠ 13)) ⊆ s :=
    (List.takeWhile_prefix _).subset
  rw [skiptorn] at h
  split at h
  · rename_i r hd
    obtain ⟨rfl, rfl⟩ := Prod.mk.inj (Option.some.inj h)
    refine ⟨hv, fun c hc => htail c ?_⟩
    rw [hd]
    exact List.mem_cons_of_mem 13 (List.mem_cons_of_mem 10 hc)
  · rename_i r hd
    obtain ⟨rfl, rfl⟩ := Prod.mk.inj (Option.some.inj h)
    refine ⟨hv, fun c hc => htail c ?_⟩
    rw [hd]
    exact List.mem_cons_of_mem 10 hc
  · cases h

private theorem drop_subset {n : Nat} : s.drop n ⊆ s := (List.drop_suffix n s).subset

private theorem blanks_subset {p : UInt8 → Bool} :
    s.dropWhile p ⊆ s := (List.dropWhile_suffix p).subset

private theorem trimmed_subset : (v.reverse.dropWhile blank).reverse ⊆ v := by
  intro c hc
  exact List.mem_reverse.mp (blanks_subset (List.mem_reverse.mp hc))

/-- The values of headers are made of the bytes of the head. -/
private theorem headers_subset {room : Nat} {hs : List (Bytes × Bytes)}
    (h : mgHttpParseHeaders room s = some hs) : ∀ e ∈ hs, e.2 ⊆ s := by
  induction room generalizing s hs with
  | zero =>
    rw [mgHttpParseHeaders] at h
    cases h
    exact fun e he => absurd he List.not_mem_nil
  | succ room ih =>
    rw [mgHttpParseHeaders] at h
    split at h
    · cases h
    split at h
    · cases h
      exact fun e he => absurd he List.not_mem_nil
    dsimp only at h
    split at h
    · cases h
    have hafter : ((word (some 58) s).2.drop 1).dropWhile blank ⊆ s := fun c hc =>
      word_subset.2 (drop_subset (blanks_subset hc))
    cases hline : skiptorn (((word (some 58) s).2.drop 1).dropWhile blank) with
    | none =>
      rw [hline] at h
      cases h
    | some line =>
      rw [hline] at h
      obtain ⟨tail, htail, rfl⟩ := Option.map_eq_some_iff.mp h
      have hcut := skiptorn_subset hline
      intro e he
      rcases List.mem_cons.mp he with rfl | he
      · exact fun c hc => hafter (hcut.1 (trimmed_subset hc))
      · exact fun c hc => hafter (hcut.2 (ih htail e he hc))

/-- The head has no zero byte. -/
private theorem head_ok {i : Nat} {a b : UInt8} (hlen : 0 < requestLenLoop i b a s) :
    ∀ c ∈ s.take ((requestLenLoop i b a s).toNat - i), isok c = true := by
  induction s generalizing i a b with
  | nil => exact absurd hlen (Int.lt_irrefl 0)
  | cons c s ih =>
    rw [requestLenLoop] at hlen ⊢
    by_cases hc : isok c = false
    · rw [if_pos hc] at hlen
      exact absurd hlen (by decide)
    rw [if_neg hc] at hlen ⊢
    have hok : isok c = true := eq_true_of_ne_false hc
    split at hlen
    · rename_i hend
      rw [if_pos hend, show ((i : Int) + 1).toNat - i = 1 by omega]
      intro x hx
      rw [List.mem_singleton.mp hx]
      exact hok
    · rename_i hend
      rw [if_neg hend]
      intro x hx
      rcases Nat.eq_zero_or_pos ((requestLenLoop (i + 1) a c s).toNat - i) with hz | hp
      · rw [hz] at hx
        exact absurd hx List.not_mem_nil
      · obtain ⟨k, hk⟩ := Nat.exists_eq_succ_of_ne_zero (Nat.ne_of_gt hp)
        rw [hk, List.take_succ_cons] at hx
        rcases List.mem_cons.mp hx with rfl | hx
        · exact hok
        · refine ih hlen x ?_
          rwa [show (requestLenLoop (i + 1) a c s).toNat - (i + 1) = k by omega]

end Cuts

section Sizes

variable {n m : Nat} {s rest : Bytes}

private theorem sizeDigits_bound (hm : m ≤ SIZE_MAX) (h : sizeDigits m s = some (n, rest)) :
    n ≤ SIZE_MAX := by
  induction s generalizing m with
  | nil =>
    cases h
    exact hm
  | cons c s ih =>
    rw [sizeDigits] at h
    split at h
    · rename_i hdigit
      split at h
      · cases h
      · rename_i hfits
        refine ih ?_ h
        have hc : c.toNat ≤ 57 := UInt8.le_iff_toNat_le.mp hdigit.2
        have hnext := (not_or.mp hfits).2
        rw [SIZE_MAX] at hnext ⊢
        omega
    · cases h
      exact hm

private theorem mgToSizeT_bound (h : mgToSizeT s = some n) : n ≤ SIZE_MAX := by
  rw [mgToSizeT] at h
  split at h
  · cases h
  split at h
  · cases h
  · rename_i result rest hdigits
    split at h
    · cases h
    · cases h
      exact sizeDigits_bound (Nat.zero_le SIZE_MAX) hdigits

private theorem bodyLength_bound {reqLen : Nat} {isResponse : Bool} {method uri : Bytes}
    {cl : Option Nat}
    (hcl : cl.getD SIZE_MAX ≤ SIZE_MAX) (h : bodyLength reqLen isResponse method uri cl = some n) :
    n ≤ SIZE_MAX := by
  unfold bodyLength at h
  dsimp only at h
  split at h
  · cases h
    exact Nat.zero_le SIZE_MAX
  split at h
  · cases h
    exact Nat.zero_le SIZE_MAX
  split at h
  · cases h
  · cases h
    exact hcl

end Sizes

section Heads

variable {s : Bytes} {p : Head}

/-- What a request needs of its head. -/
structure Head.Plain (p : Head) : Prop where
  method : 0 ∉ p.method
  uri : 0 ∉ p.uri ∧ 63 ∉ p.uri
  found : p.uri ≠ []
  query : 0 ∉ p.query
  headers : ∀ e ∈ p.headers, 0 ∉ e.2
  body : p.bodyLen ≤ SIZE_MAX

private theorem parsed_plain (h : mgHttpParse s = .ok p) : p.Plain := by
  rw [mgHttpParse] at h
  dsimp only at h
  by_cases hlen : mgHttpGetRequestLen s ≤ 0
  · rw [if_pos hlen] at h
    cases h
  rw [if_neg hlen] at h
  generalize hhead : s.take (mgHttpGetRequestLen s).toNat = head at h
  have hzero : (0 : UInt8) ∉ head := by
    intro hmem
    rw [← hhead, mgHttpGetRequestLen, ← Nat.sub_zero (requestLenLoop 0 0 0 s).toNat] at hmem
    exact absurd (head_ok (Int.not_le.mp hlen) 0 hmem) (by decide)
  have hafter : ((word none head).2.dropWhile (· = 32)) ⊆ head := fun c hc =>
    word_subset.2 (blanks_subset hc)
  generalize huri : word none ((word none head).2.dropWhile (· = 32)) = uri at h
  have hword : uri.1 ⊆ head ∧ uri.2 ⊆ head := by
    rw [← huri]
    exact ⟨fun c hc => hafter (word_subset.1 hc), fun c hc => hafter (word_subset.2 hc)⟩
  split at h
  · cases h
  rename_i proto rest hline
  split at h
  · cases h
  split at h
  · cases h
  rename_i hfound
  split at h
  · cases h
  rename_i headers hheaders
  split at h
  · cases h
  split at h
  · cases h
  rename_i len hbody
  cases h
  have hrest : rest ⊆ head := fun c hc =>
    hword.2 (blanks_subset ((skiptorn_subset hline).2 hc))
  refine ⟨fun h0 => hzero (word_subset.1 h0), ⟨fun h0 => hzero (hword.1 ?_), fun hq => ?_⟩,
    (not_or.mp hfound).2, fun h0 => hzero (hword.1 (blanks_subset (drop_subset h0))),
    fun e he h0 => hzero (hrest (headers_subset hheaders e he h0)), bodyLength_bound ?_ hbody⟩
  · exact (List.takeWhile_prefix _).subset h0
  · have hpath : (63 : UInt8) ∈ uri.1.takeWhile fun c => decide (c ≠ 63) := hq
    have hmark := List.mem_takeWhile_imp hpath
    exact of_decide_eq_true hmark rfl
  · cases hcl : (mgHttpGetHeaderIn headers "Content-Length").bind mgToSizeT with
    | none => exact Nat.le_refl SIZE_MAX
    | some n =>
      obtain ⟨v, -, hn⟩ := Option.bind_eq_some_iff.mp hcl
      exact mgToSizeT_bound hn

/-- Whatever the parser accepts is a request. -/
theorem exists_parsed (h : mgHttpParse s = .ok p) : ∃ hm, Parsed s hm := by
  have plain := parsed_plain h
  have hsize : ((s.drop p.len).take p.bodyLen).length < 2 ^ 64 := by
    have hle := List.length_take_le p.bodyLen (s.drop p.len)
    have hmax := plain.body
    rw [SIZE_MAX] at hmax
    omega
  exact ⟨⟨p.method, p.uri, p.query, p.headers, (s.drop p.len).take p.bodyLen, plain.method, plain.uri,
    plain.query, plain.headers, hsize⟩, ⟨p, h, rfl, rfl, rfl, rfl, rfl⟩⟩

end Heads

end Cyctron.Http.Parse
