/- Cyctron/Call/Accept
   digest: Which objects the request parser accepts, and what it takes from them. -/

import Cyctron.Mongoose.Strings

set_option autoImplicit false
set_option relaxedAutoImplicit false

namespace Cyctron.Call.Accept

open Cyctron.Base.CString Cyctron.Call.Protocol Cyctron.Json.Text Cyctron.Json.Build
open Cyctron.Json.Escape Cyctron.Mongoose.Json Cyctron.Mongoose.Object Cyctron.Mongoose.Strings

section Values

variable {exponent : Bytes → Prop} {d : Nat} {v : Bytes}

/-- An object, or the word null, as it is written. -/
def ObjectOrNull (v : Bytes) : Prop := v.head? = some 123 ∨ v = ascii "null"

private theorem isObjectOrNull_value (h : Derives (Number exponent) .value d v) :
    isObjectOrNull v = true ↔ ObjectOrNull v := by
  obtain ⟨c, u, rfl, hspace, hnull⟩ := value_first h
  have hdrop : (c :: u).dropWhile isspace = c :: u := by simp [hspace]
  unfold isObjectOrNull ObjectOrNull
  dsimp only
  rw [hdrop]
  by_cases hobject : c = 123
  · subst hobject
    exact iff_of_true rfl (Or.inl rfl)
  · have hfirst : ¬(c :: u).head? = some 123 := fun h => hobject (Option.some.inj h)
    rw [if_neg hfirst]
    constructor
    · intro htrue
      split at htrue
      · rename_i hword
        refine Or.inr (hnull ?_)
        exact (List.cons.inj (hword.trans (by decide : ascii "null" = 110 :: [117, 108, 108]))).1
      · cases htrue
    · rintro (hc | hc)
      · exact absurd hc hfirst
      · rw [hc]
        decide

end Values

/-- What a request asks for, in the terms of its members. -/
structure Callable (ms : List (Bytes × Bytes)) (i l f a : Bytes) : Prop where
  id : (lookup (ascii "id") ms).bind decodeString = some i
  lib : (lookup (ascii "lib") ms).bind decodeString = some l
  symbol : (lookup (ascii "symbol") ms).bind decodeString = some f
  idLength : i.length ≤ 128
  libLength : l.length ≤ 128
  symbolLength : f.length ≤ 128
  libSafe : l ≠ [] ∧ ∀ c ∈ l, isalnum c = true ∨ c = 95 ∨ c = 45
  symbolSafe : f ≠ [] ∧ ∀ c ∈ f, isalnum c = true ∨ c = 95 ∨ c = 45
  args : ∀ v, lookup (ascii "args") ms = some v → ObjectOrNull v
  argsText : a = (lookup (ascii "args") ms).getD (ascii "\x7b\x7d")

/-- Where these members are strings, the reader knows their escapes. -/
def KnownEscapes (ms : List (Bytes × Bytes)) : Prop :=
  ∀ key ∈ [ascii "id", ascii "lib", ascii "symbol"], ∀ b, lookup key ms = some (quoted b) → Simple b

section Requests

variable {getLong : Bytes → String → Int → Int} {d errSize : Nat} {ms : List (Bytes × Bytes)}
  {json key i l f a : Bytes} {path : String}

private theorem getStr_member (h : Object (Number Readable) d ms json)
    (room : 1 + d ≤ MG_JSON_MAX_DEPTH)
    (size : json.length ≤ WS_CALL_MAX_PAYLOAD) (hpath : ascii path = 36 :: 46 :: key)
    (known : ∀ b, lookup key ms = some (quoted b) → Simple b) :
    mgJsonGetStr json path = (lookup key ms).bind decodeString := by
  have hshort : json.length < 2 ^ 31 := Nat.lt_of_le_of_lt size (by decide)
  rw [mgJsonGetStr_object hpath h room hshort]
  cases hv : lookup key ms with
  | none => rfl
  | some v =>
    rw [Option.bind_some, Option.bind_some]
    by_cases hquote : v.head? = some 34
    · obtain ⟨c, u, rfl⟩ := List.exists_cons_of_ne_nil (value_ne_nil (lookup_derives h hv))
      obtain rfl := Option.some.inj hquote
      obtain ⟨b, _, hb⟩ := value_string (lookup_derives h hv)
      rw [hb] at hv ⊢
      exact readString_quoted (known b hv)
    · obtain ⟨hread, hdecode⟩ := readString_other hquote
      rw [hread, hdecode]

private theorem wsSafeName_iff {s : Bytes} :
    wsSafeName s = true ↔ s ≠ [] ∧ ∀ c ∈ s, isalnum c = true ∨ c = 95 ∨ c = 45 := by
  simp only [wsSafeName, Bool.and_eq_true, decide_eq_true_eq, List.all_eq_true, Bool.or_eq_true,
    or_assoc]

/-- What the parser requires of an object, and what it takes from it, in terms of its members. -/
private theorem accepted_iff (h : Object (Number Readable) d ms json)
    (room : 1 + d ≤ MG_JSON_MAX_DEPTH)
    (size : json.length ≤ WS_CALL_MAX_PAYLOAD) (known : KnownEscapes ms) :
    Accepted (mongoose getLong) ⟨true, true⟩ json i l f a ↔ Callable ms i l f a := by
  have hid : mgJsonGetStr json "$.id" = (lookup (ascii "id") ms).bind decodeString :=
    getStr_member h room size (by decide) (known _ (by simp))
  have hlib : mgJsonGetStr json "$.lib" = (lookup (ascii "lib") ms).bind decodeString :=
    getStr_member h room size (by decide) (known _ (by simp))
  have hsymbol : mgJsonGetStr json "$.symbol" = (lookup (ascii "symbol") ms).bind decodeString :=
    getStr_member h room size (by decide) (known _ (by simp))
  have htok : mgJsonGetTok json "$.args" = (lookup (ascii "args") ms).getD [] :=
    mgJsonGetTok_object (by decide) h room (Nat.lt_of_le_of_lt size (by decide))
  have hargs : argsText (mongoose getLong) ⟨true, true⟩ json =
      some ((lookup (ascii "args") ms).getD (ascii "\x7b\x7d")) := by
    change (if mgJsonGetTok json "$.args" ≠ [] && true then
      some (cString (mgJsonGetTok json "$.args")) else some (ascii "\x7b\x7d")) = _
    rw [htok]
    cases hv : lookup (ascii "args") ms with
    | none => rfl
    | some v =>
      have hvalue := lookup_derives h hv
      have hpresent : (v ≠ [] && true) = true := by simp [value_ne_nil hvalue]
      rw [Option.getD_some, Option.getD_some, if_pos hpresent, cString_value hvalue]
  constructor
  · intro accepted
    have ha : (lookup (ascii "args") ms).getD (ascii "\x7b\x7d") = a :=
      Option.some.inj (hargs.symm.trans accepted.args)
    refine ⟨hid.symm.trans accepted.getId, hlib.symm.trans accepted.getLib,
      hsymbol.symm.trans accepted.getSymbol, accepted.idLength, accepted.libLength,
      accepted.symbolLength, wsSafeName_iff.mp accepted.libSafe,
      wsSafeName_iff.mp accepted.symbolSafe, ?_, ha.symm⟩
    intro v hv
    have hshape := accepted.argsShape
    rw [← ha, hv, Option.getD_some] at hshape
    exact (isObjectOrNull_value (lookup_derives h hv)).mp hshape
  · intro callable
    refine ⟨object_length h, size, hid.trans callable.id, hlib.trans callable.lib,
      hsymbol.trans callable.symbol, callable.idLength, callable.libLength, callable.symbolLength,
      wsSafeName_iff.mpr callable.libSafe, wsSafeName_iff.mpr callable.symbolSafe,
      hargs.trans (congrArg some callable.argsText.symm), ?_⟩
    rw [callable.argsText]
    cases hv : lookup (ascii "args") ms with
    | none => decide
    | some v => exact (isObjectOrNull_value (lookup_derives h hv)).mpr (callable.args v hv)

/-- An object that the reader can follow is accepted exactly when its members ask for a call, and then
they are taken as they stand. -/
theorem object_call (h : Object (Number Readable) d ms json) (room : 1 + d ≤ MG_JSON_MAX_DEPTH)
    (size : json.length ≤ WS_CALL_MAX_PAYLOAD) (known : KnownEscapes ms) :
    let r := wsCallParse (mongoose getLong) ⟨true, true⟩ (some json) errSize
    (r.code = WS_CALL_OK ↔ ∃ i l f a, Callable ms i l f a) ∧
      ∀ i l f a, Callable ms i l f a →
        r.req = ⟨some i, some l, some f, some a, getLong json "$.timeout_ms" 0⟩ := by
  intro r
  have hiff : ∀ i l f a, Accepted (mongoose getLong) ⟨true, true⟩ json i l f a ↔ Callable ms i l f a :=
    fun i l f a => accepted_iff h room size known
  refine ⟨?_, ?_⟩
  · rw [wsCallParse_accepts]
    simp only [hiff]
  · intro i l f a callable
    have hparse : r = _ := ((hiff i l f a).mpr callable).parse
    exact congrArg WsCallParsed.req hparse

/-- A request with escapes in its id and an object for its arguments. -/
def argsMembers : List (Bytes × Bytes) :=
  [(ascii "id", quoted (ascii "a\\u0041\\n")), (ascii "lib", quoted (ascii "math")),
    (ascii "symbol", quoted (ascii "add")), (ascii "args", compact [(ascii "x", decimal 1)])]

theorem object_call_args :
    (wsCallParse (mongoose fun _ _ d => d) ⟨true, true⟩ (some (compact argsMembers)) 64).req =
      ⟨some (ascii "aA\n"), some (ascii "math"), some (ascii "add"), some (ascii "\x7b\"x\":1\x7d"),
        0⟩ := by
  have hid : Simple (ascii "a\\u0041\\n") :=
    .plain (by decide) (by decide) (by decide) <| .unicode (by decide) (by decide) (by decide)
      (by decide) <| .short (by decide) .nil
  have hargs : Fills (Number Readable) 0 [(ascii "x", decimal 1)] [(ascii "x", decimal 1)] :=
    .one (body_plain (by decide)) (padded_self (.number (number_decimal 1)))
  have hobject : Object (Number Readable) 1 argsMembers (compact argsMembers) :=
    object_compact <| .cons (body_plain (by decide)) (padded_quoted (body_simple hid)) <|
      .cons (body_plain (by decide)) (padded_quoted (body_plain (by decide))) <|
      .cons (body_plain (by decide)) (padded_quoted (body_plain (by decide))) <|
      .one (body_plain (by decide)) (padded_compact hargs)
  have hknown : KnownEscapes argsMembers := by
    have hinj : ∀ {b b' : Bytes}, some (quoted b) = some (quoted b') → b = b' := by
      intro b b' heq
      exact List.append_cancel_right (List.cons.inj (Option.some.inj heq)).2
    intro key hkey b hb
    simp only [List.mem_cons, List.not_mem_nil, or_false] at hkey
    rcases hkey with rfl | rfl | rfl
    · have hvalue : lookup (ascii "id") argsMembers = some (quoted (ascii "a\\u0041\\n")) := by decide
      rwa [← hinj (hvalue.symm.trans hb)]
    · have hvalue : lookup (ascii "lib") argsMembers = some (quoted (ascii "math")) := by decide
      rw [← hinj (hvalue.symm.trans hb)]
      exact simple_plain (by decide)
    · have hvalue : lookup (ascii "symbol") argsMembers = some (quoted (ascii "add")) := by decide
      rw [← hinj (hvalue.symm.trans hb)]
      exact simple_plain (by decide)
  have hshape : ∀ v, lookup (ascii "args") argsMembers = some v → ObjectOrNull v := by
    intro v hv
    have hvalue : lookup (ascii "args") argsMembers = some (compact [(ascii "x", decimal 1)]) := by
      decide
    obtain rfl := Option.some.inj (hvalue.symm.trans hv)
    exact Or.inl rfl
  refine (object_call hobject (by decide) (by decide) hknown).2 _ _ _ _ ⟨by decide, by decide, by decide,
    by decide, by decide, by decide, wsSafeName_iff.mp (by decide), wsSafeName_iff.mp (by decide), hshape,
    by decide⟩

end Requests

section Limits

/-- Arrays inside each other. -/
def nested : Nat → Bytes
  | 0 => ascii "null"
  | n + 1 => 91 :: (nested n ++ [93])

theorem derives_nested {num : Bytes → Prop} (n : Nat) : Derives num .value n (nested n) := by
  induction n with
  | zero => exact .null
  | succ n ih =>
    have hinner : Derives num .elements n ([] ++ (nested n ++ [])) := .element blank_nil ih blank_nil
    rw [List.nil_append, List.append_nil] at hinner
    exact .array hinner

def cutPayload : Bytes := ascii "\x7b\"id\":\"a\",\"lib\":\"b\",\"symbol\":\"c\""

/-- The three members behind a value that is nested too deep. -/
def deepMembers : List (Bytes × Bytes) :=
  [(ascii "x", nested 30), (ascii "id", quoted (ascii "a")), (ascii "lib", quoted (ascii "b")),
    (ascii "symbol", quoted (ascii "c"))]

private theorem object_deepMembers : IsObject (compact deepMembers) deepMembers := by
  refine ⟨30, object_compact ?_⟩
  exact .cons (body_plain (by decide)) (padded_self (derives_nested 30)) <|
    .cons (body_plain (by decide)) (padded_quoted (body_plain (by decide))) <|
    .cons (body_plain (by decide)) (padded_quoted (body_plain (by decide))) <|
    .one (body_plain (by decide)) (padded_quoted (body_plain (by decide)))

/-- A text that is cut short is accepted, and an object that is nested too deep is not. -/
theorem lookups_are_lazy :
    ((wsCallParse (mongoose fun _ _ d => d) ⟨true, true⟩ (some cutPayload) 64).code = WS_CALL_OK ∧
      ¬∃ ms, IsObject cutPayload ms) ∧
    ((∃ ms, IsObject (compact deepMembers) ms ∧
        Callable ms (ascii "a") (ascii "b") (ascii "c") (ascii "\x7b\x7d")) ∧
      (wsCallParse (mongoose fun _ _ d => d) ⟨true, true⟩ (some (compact deepMembers)) 64).code ≠
        WS_CALL_OK) := by
  refine ⟨⟨by decide +kernel, ?_⟩, ⟨deepMembers, object_deepMembers, ?_⟩, by decide +kernel⟩
  · rintro ⟨ms, d, h⟩
    have hlast : cutPayload =
        ascii "\x7b\"id\":\"a\",\"lib\":\"b\",\"symbol\":\"c" ++ [34] := by decide +kernel
    rw [hlast] at h
    exact absurd (object_last h) (by decide)
  · have hnone : lookup (ascii "args") deepMembers = none := by decide +kernel
    refine ⟨by decide +kernel, by decide +kernel, by decide +kernel, by decide, by decide, by decide,
      wsSafeName_iff.mp (by decide), wsSafeName_iff.mp (by decide), ?_, by rw [hnone]; rfl⟩
    intro v hv
    rw [hnone] at hv
    cases hv

end Limits

end Cyctron.Call.Accept
