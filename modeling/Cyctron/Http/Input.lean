/- Cyctron/Http/Input
   digest: The input that the query of a request gives a plugin, beside what it asks for. -/

import Cyctron.Base.FileTree
import Cyctron.Http.Libary
import Cyctron.Json.Members
import Cyctron.Mongoose.Decimal

set_option autoImplicit false
set_option relaxedAutoImplicit false

namespace Cyctron.Http.Input

open Cyctron.Base.CString Cyctron.Base.FileTree Cyctron.Base.Number Cyctron.Http.Libary
open Cyctron.Http.Message Cyctron.Http.Routing Cyctron.Json.Build Cyctron.Json.Escape
open Cyctron.Json.Members Cyctron.Json.Text Cyctron.Mongoose.Decimal Cyctron.Mongoose.Query

variable {s p e key q : Bytes} {i j : Int} {hm : HttpMessage}

/-- The names and values of the parameters of a query; empty entries are none. -/
def params (query : Bytes) : List (Bytes × Bytes) :=
  ((query.splitOn 38).filter (· ≠ [])).map fun e => (spanKey e, spanValue e)

/-- The integer in the first parameter named id. -/
def idNumber (query : Bytes) : Option Int :=
  ((params query).find? fun m => decide (m.1 = ascii "id")).bind fun m => longNumeral m.2

/-- The value of the first parameter; a query without any has none. -/
def firstValue (query : Bytes) : Bytes := (params query).head?.elim [] Prod.snd

/-- The documented input for a number. -/
def idText (i : Int) : Bytes := ascii "\x7b\"id\":" ++ decimalInt i ++ ascii "\x7d"

/-- An object with one member, the name and the string value of which decode to these texts. -/
def OnlyMember (t name value : Bytes) : Prop :=
  ∃ n v, IsObject t [(n, v)] ∧ decode n = name ∧ decodeString v = some value

/-- The text is what the query contributes, and what the plugin is given. -/
def Passed (hm : HttpMessage) (t : Bytes) : Prop :=
  queryToJson hm = some t ∧ buildJsonIn hm = some t

/-- The plugin is given what the query asks for: the number of its first parameter named id, or else
the value of its first parameter, or else nothing of it. -/
structure AsAsked (hm : HttpMessage) : Prop where
  id : ∀ i, idNumber hm.query = some i → Passed hm (idText i)
  q : idNumber hm.query = none → firstValue hm.query ≠ [] →
    ∃ t, Passed hm t ∧ OnlyMember t (ascii "q") (firstValue hm.query)
  nothing : idNumber hm.query = none → firstValue hm.query = [] →
    queryToJson hm = none ∧ buildJsonIn hm = if hm.body = [] then none else some hm.body

section Entries

/-- An entry that begins with a key and an equals sign has that name. -/
private theorem spanKey_entry (hkey : 61 ∉ key) (h : key ++ [61] <+: e) :
    spanKey e = key ∧ spanValue e = e.drop (key.length + 1) := by
  obtain ⟨v, rfl⟩ := h
  have hall : ∀ c ∈ key, decide (c ≠ 61) = true := by
    intro c hc
    rw [decide_eq_true_eq]
    rintro rfl
    exact hkey hc
  have hdrop : (key ++ [61] ++ v).drop (key.length + 1) = v := List.drop_left' (by simp)
  rw [hdrop, spanKey, spanValue, List.append_assoc, List.takeWhile_append_of_pos hall,
    List.dropWhile_append_of_pos hall]
  simp

/-- An entry with a value has an equals sign behind its name. -/
private theorem prefix_of_value (h : spanValue e ≠ []) : spanKey e ++ [61] <+: e := by
  have hsplit : spanKey e ++ e.dropWhile (· ≠ 61) = e := List.takeWhile_append_dropWhile
  have hhead := List.head?_dropWhile_not (fun c => decide (c ≠ 61)) e
  cases hd : e.dropWhile (· ≠ 61) with
  | nil =>
    rw [spanValue, hd] at h
    exact absurd rfl h
  | cons c v =>
    rw [hd] at hhead hsplit
    obtain rfl : c = 61 := by simpa using hhead
    exact ⟨v, by rw [List.append_assoc]; exact hsplit⟩

/-- A text with something behind an equals sign has something behind its first one. -/
private theorem value_behind {c : UInt8} {t : Bytes} (h : 61 :: c :: t <:+: s) : spanValue s ≠ [] := by
  obtain ⟨a, b, rfl⟩ := h
  unfold spanValue
  rw [List.append_assoc, List.dropWhile_append]
  split
  · simp
  · rename_i hne
    intro hnil
    have hlength := congrArg List.length hnil
    simp at hlength

/-- The search of the code finds a number only where the query has something behind an equals
sign. -/
private theorem queryGetLong_none (hv : spanValue s = []) : queryGetLong s key = none := by
  unfold queryGetLong
  split
  · rfl
  · rename_i part hfind
    have hfound := List.find?_some hfind
    obtain ⟨v, hpart⟩ := of_decide_eq_true hfound
    have hwithin := component_within (List.mem_of_find?_eq_some hfind)
    dsimp only
    cases v with
    | nil =>
      have hdrop : part.drop (key.length + 1) = [] :=
        List.drop_eq_nil_of_le (by rw [← hpart]; simp)
      rw [hdrop]
      rfl
    | cons c v =>
      have hbehind : 61 :: c :: v <:+: part := ⟨key, [], by rw [← hpart]; simp⟩
      exact absurd hv (value_behind (hbehind.trans hwithin))

end Entries

section Numbers

private theorem idNumber_eq (s : Bytes) : idNumber s =
    ((s.splitOn 38).find? fun e => decide (spanKey e = ascii "id")).bind fun e =>
      longNumeral (spanValue e) := by
  have hname : ∀ e : Bytes, (e ≠ [] ∧ spanKey e = ascii "id") ↔ spanKey e = ascii "id" := by
    intro e
    refine and_iff_right_of_imp ?_
    rintro hname rfl
    exact absurd hname (by decide)
  rw [idNumber, params, List.find?_map, List.find?_filter, Option.bind_map]
  simp only [Function.comp_def, decide_eq_true_eq, hname]

/-- The search of the code: the first entry that begins with the key and an equals sign. -/
private theorem queryGetLong_eq (s : Bytes) : queryGetLong s (ascii "id") =
    ((s.splitOn 38).find? fun e => decide (ascii "id" ++ [61] <+: e)).bind fun e =>
      if strtolDigits (spanValue e) = [] then none else some (strtol (spanValue e)) := by
  unfold queryGetLong
  split
  · rename_i hfind
    rw [hfind]
    rfl
  · rename_i part hfind
    have hfound := List.find?_some hfind
    obtain ⟨_, hvalue⟩ := spanKey_entry (by decide) (of_decide_eq_true hfound)
    rw [hfind, Option.bind_some, hvalue]

/-- A parameter with a number is an entry that the code looks for. -/
private theorem idEntry (h : longNumeral (spanValue e) = some i) (hname : spanKey e = ascii "id") :
    ascii "id" ++ [61] <+: e := by
  rw [← hname]
  apply prefix_of_value
  intro hnil
  rw [hnil] at h
  cases h

/-- The code finds the number of the first parameter named id. -/
private theorem queryGetLong_number (h : idNumber s = some i) :
    queryGetLong s (ascii "id") = some i := by
  rw [idNumber_eq] at h
  obtain ⟨e, he, hi⟩ := Option.bind_eq_some_iff.mp h
  obtain ⟨hname, front, rest, hparts, hfront⟩ := List.find?_eq_some_iff_append.mp he
  have hprefix := idEntry hi (of_decide_eq_true hname)
  have hfind : (s.splitOn 38).find? (fun e => decide (ascii "id" ++ [61] <+: e)) = some e := by
    refine List.find?_eq_some_iff_append.mpr ⟨decide_eq_true hprefix, front, rest, hparts, ?_⟩
    intro f hf
    have hother := hfront f hf
    rw [Bool.not_eq_true', decide_eq_false_iff_not] at hother ⊢
    exact fun hp => hother (spanKey_entry (by decide) hp).1
  obtain ⟨hdigits, hvalue⟩ := strtol_numeral hi
  rw [queryGetLong_eq, hfind, Option.bind_some, if_neg hdigits, hvalue]

/-- What the code finds in the front of a query is a number there, when the query has one. -/
private theorem number_of_front (h : idNumber s = some i) (hp : p <+: s)
    (hfound : queryGetLong p (ascii "id") = some j) : idNumber p = some j := by
  obtain ⟨front, x, y, rest, hfront, hall, hxy⟩ := @splitOn_front _ _ 38 _ _ hp
  rw [idNumber_eq, hall, List.find?_append] at h
  cases hin : front.find? (fun e => decide (spanKey e = ascii "id")) with
  | some e =>
    have hnumber : idNumber p = some i := by
      rw [hin, Option.some_or] at h
      rw [idNumber_eq, hfront, List.find?_append, hin, Option.some_or, h]
    rw [queryGetLong_number hnumber] at hfound
    rw [hnumber, hfound]
  | none =>
    -- the parameter is the entry that is cut
    have hnone : front.find? (fun e => decide (ascii "id" ++ [61] <+: e)) = none := by
      rw [List.find?_eq_none] at hin ⊢
      intro e he hprefix
      exact hin e he (decide_eq_true (spanKey_entry (by decide) (of_decide_eq_true hprefix)).1)
    rw [queryGetLong_eq, hfront, List.find?_append, hnone, Option.none_or] at hfound
    obtain ⟨e, he, hvalue⟩ := Option.bind_eq_some_iff.mp hfound
    have hx : ascii "id" ++ [61] <+: x := by
      have hsome := List.find?_some he
      rw [List.mem_singleton.mp (List.mem_of_find?_eq_some he)] at hsome
      exact of_decide_eq_true hsome
    obtain rfl : e = x := List.mem_singleton.mp (List.mem_of_find?_eq_some he)
    obtain ⟨hkx, hvx⟩ := spanKey_entry (by decide) hx
    obtain ⟨hky, hvy⟩ := spanKey_entry (by decide) (hx.trans hxy)
    have hfirst : ∀ {z : Bytes} (zs : List Bytes), spanKey z = ascii "id" →
        (z :: zs).find? (fun e => decide (spanKey e = ascii "id")) = some z :=
      fun _ hz => List.find?_cons_of_pos (decide_eq_true hz)
    rw [hin, Option.none_or, hfirst rest hky, Option.bind_some] at h
    have hvalues : spanValue e <+: spanValue y := by
      rw [hvx, hvy]
      exact hxy.drop _
    obtain ⟨hdigits, hj⟩ := Option.ite_none_left_eq_some.mp hvalue
    rw [idNumber_eq, hfront, List.find?_append, hin, Option.none_or, hfirst [] hkx, Option.bind_some,
      longNumeral_prefix h hvalues hdigits, hj]

end Numbers

section Texts

/-- What the code writes of a value: there is no room for the brace. -/
def openText (v : Bytes) : Bytes := ascii "\x7b\"q\":\"" ++ v ++ ascii "\""

private theorem openText_eq (v : Bytes) :
    snprintf (v.length + 8) (ascii "\x7b\"q\":\"" ++ v ++ ascii "\"\x7d") = openText v := by
  have hlead : (ascii "\x7b\"q\":\"").length = 6 := by decide
  have hclose : ascii "\"\x7d" = ascii "\"" ++ ascii "\x7d" := by decide
  rw [snprintf, hclose, ← List.append_assoc]
  refine List.take_left' ?_
  rw [List.length_append, List.length_append, hlead]
  change 6 + v.length + 1 = v.length + 8 - 1
  omega

private theorem openText_not_object (v : Bytes) (ms : List (Bytes × Bytes)) :
    ¬IsObject (openText v) ms := by
  rintro ⟨d, h⟩
  exact absurd (object_last h) (by decide)

private theorem idText_fits (h : -2 ^ 63 ≤ i ∧ i ≤ 2 ^ 63 - 1) :
    snprintf 32 (idText i) = idText i := by
  apply snprintf_fits
  have hlead : (ascii "\x7b\"id\":").length = 6 := by decide
  have hclose : (ascii "\x7d").length = 1 := by decide
  have hnumber : (decimalInt i).length ≤ 20 := decimalInt_length (e := 19) (by omega) (by decide)
  rw [idText, List.length_append, List.length_append, hlead, hclose]
  omega

private theorem idText_injective (h : idText i = idText j) : i = j := by
  unfold idText at h
  exact decimalInt_injective (List.append_cancel_left (List.append_cancel_right h))

/-- The texts for a number have a member named id. -/
private theorem idText_other : ¬OnlyMember (idText i) (ascii "q") q := by
  rintro ⟨n, v, ⟨d, h⟩, hname, _⟩
  have htext : idText i = 123 :: 34 :: (ascii "id" ++ 34 :: 58 :: (decimalInt i ++ ascii "\x7d")) := by
    have hlead : ascii "\x7b\"id\":" = 123 :: 34 :: (ascii "id" ++ [34, 58]) := by decide
    rw [idText, hlead]
    simp
  rw [htext] at h
  rw [object_name (body_plain (by decide)) h] at hname
  exact absurd hname (by decide)

private theorem openText_ne (v : Bytes) (i : Int) : openText v ≠ idText i := by
  intro heq
  have hq : (openText v)[2]? = some 113 := rfl
  have hi : (idText i)[2]? = some 105 := rfl
  rw [heq, hi] at hq
  exact absurd hq (by decide)

end Texts

section Requests

/-- What the query contributes: a number, an open text, or nothing. -/
private theorem queryToJson_cases (hm : HttpMessage) :
    (∃ j, queryGetLong (hm.query.take 255) (ascii "id") = some j ∧
      queryToJson hm = some (idText j)) ∨
    ((queryGetLong (hm.query.take 255) (ascii "id") = none ∧ spanValue (hm.query.take 255) ≠ []) ∧
      queryToJson hm = some (openText (spanValue (hm.query.take 255)))) ∨
    (spanValue (hm.query.take 255) = [] ∧ queryToJson hm = none) := by
  have hplain : cString (hm.query.take 255) = hm.query.take 255 :=
    cString_plain fun hmem => hm.query_plain (List.take_subset _ _ hmem)
  by_cases hquery : hm.query = []
  · refine Or.inr (Or.inr ⟨?_, if_pos hquery⟩)
    rw [hquery]
    rfl
  rw [queryToJson, if_neg hquery, hplain]
  dsimp only
  cases hget : queryGetLong (hm.query.take 255) (ascii "id") with
  | some j =>
    refine Or.inl ⟨j, rfl, ?_⟩
    have hbounds : -2 ^ 63 ≤ j ∧ j ≤ 2 ^ 63 - 1 := by
      rw [queryGetLong_eq] at hget
      obtain ⟨e, _, hvalue⟩ := Option.bind_eq_some_iff.mp hget
      obtain ⟨_, hj⟩ := Option.ite_none_left_eq_some.mp hvalue
      obtain rfl := Option.some.inj hj
      exact strtol_bounds _
    exact congrArg some (idText_fits hbounds)
  | none =>
    by_cases hvalue : spanValue (hm.query.take 255) = []
    · exact Or.inr (Or.inr ⟨hvalue, if_pos hvalue⟩)
    · exact Or.inr (Or.inl ⟨⟨rfl, hvalue⟩, (if_neg hvalue).trans (congrArg some (openText_eq _))⟩)

private theorem passed_iff {t : Bytes} : Passed hm t ↔ queryToJson hm = some t := by
  refine and_iff_left_of_imp fun h => ?_
  rw [buildJsonIn, h]

/-- A value that the plugin should be given is never passed. -/
private theorem value_not_passed (v : Bytes) : ¬∃ t, Passed hm t ∧ OnlyMember t (ascii "q") v := by
  rintro ⟨t, ht, hmember⟩
  rw [passed_iff] at ht
  rcases queryToJson_cases hm with ⟨j, _, htext⟩ | ⟨_, htext⟩ | ⟨_, htext⟩
  · obtain rfl := Option.some.inj (ht.symm.trans htext)
    exact idText_other hmember
  · obtain rfl := Option.some.inj (ht.symm.trans htext)
    obtain ⟨n, v, hobject, _⟩ := hmember
    exact openText_not_object _ _ hobject
  · exact absurd (ht.symm.trans htext) (Option.some_ne_none t)

private theorem number_passed_iff (h : idNumber hm.query = some i) :
    Passed hm (idText i) ↔ idNumber (hm.query.take 255) = some i := by
  rw [passed_iff]
  constructor
  · intro htext
    rcases queryToJson_cases hm with ⟨j, hget, hj⟩ | ⟨_, hopen⟩ | ⟨_, hnone⟩
    · obtain rfl := idText_injective (Option.some.inj (htext.symm.trans hj))
      exact number_of_front h (List.take_prefix 255 hm.query) hget
    · exact absurd (Option.some.inj (hopen.symm.trans htext)) (openText_ne _ i)
    · exact absurd (htext.symm.trans hnone) (Option.some_ne_none _)
  · intro hfront
    have hget := queryGetLong_number hfront
    rcases queryToJson_cases hm with ⟨j, hj, htext⟩ | ⟨⟨hnone, _⟩, _⟩ | ⟨hnone, _⟩
    · obtain rfl := Option.some.inj (hget.symm.trans hj)
      exact htext
    · exact absurd (hget.symm.trans hnone) (Option.some_ne_none i)
    · exact absurd (hget.symm.trans (queryGetLong_none hnone)) (Option.some_ne_none i)

/-- Nothing is contributed exactly when the copy of the query has nothing behind an equals sign. -/
private theorem nothing_iff : (queryToJson hm = none ∧
      buildJsonIn hm = if hm.body = [] then none else some hm.body) ↔
    spanValue (hm.query.take 255) = [] := by
  constructor
  · rintro ⟨hnone, _⟩
    rcases queryToJson_cases hm with ⟨j, _, htext⟩ | ⟨_, htext⟩ | ⟨hvalue, _⟩
    · exact absurd (htext.symm.trans hnone) (Option.some_ne_none _)
    · exact absurd (htext.symm.trans hnone) (Option.some_ne_none _)
    · exact hvalue
  · intro hvalue
    have hnone : queryToJson hm = none := by
      rcases queryToJson_cases hm with ⟨j, hget, _⟩ | ⟨⟨_, hne⟩, _⟩ | ⟨_, hnone⟩
      · exact absurd (hget.symm.trans (queryGetLong_none hvalue)) (Option.some_ne_none j)
      · exact absurd hvalue hne
      · exact hnone
    exact ⟨hnone, by rw [buildJsonIn, hnone]⟩

/-- The plugin is given what the query asks for exactly when the first 255 bytes of the query have
the number of its first parameter named id, or when the query has no such number and no value in its
first parameter, and these bytes have nothing behind an equals sign. -/
theorem asAsked_iff (hm : HttpMessage) : AsAsked hm ↔
    (∃ i, idNumber hm.query = some i ∧ idNumber (hm.query.take 255) = some i) ∨
      (idNumber hm.query = none ∧ firstValue hm.query = [] ∧
        spanValue (hm.query.take 255) = []) := by
  constructor
  · intro h
    cases hid : idNumber hm.query with
    | some i => exact Or.inl ⟨i, rfl, (number_passed_iff hid).mp (h.id i hid)⟩
    | none =>
      by_cases hfirst : firstValue hm.query = []
      · exact Or.inr ⟨rfl, hfirst, nothing_iff.mp (h.nothing hid hfirst)⟩
      · exact absurd (h.q hid hfirst) (value_not_passed _)
  · rintro (⟨i, hid, hfront⟩ | ⟨hid, hfirst, hvalue⟩)
    · refine ⟨fun j hj => ?_, fun hnone => ?_, fun hnone => ?_⟩
      · obtain rfl := Option.some.inj (hid.symm.trans hj)
        exact (number_passed_iff hid).mpr hfront
      · exact absurd (hid.symm.trans hnone) (Option.some_ne_none i)
      · exact absurd (hid.symm.trans hnone) (Option.some_ne_none i)
    · refine ⟨fun j hj => ?_, fun _ hne => absurd hfirst hne, fun _ _ => nothing_iff.mpr hvalue⟩
      exact absurd (hj.symm.trans hid) (Option.some_ne_none j)

def nameRequest : HttpMessage :=
  headRequest GET (ascii "/demo") (ascii "name=abc") [] (by decide +kernel)

/-- The value of a parameter is passed in a text without its brace. -/
theorem name_unclosed : ∃ hm : HttpMessage, hm.query = ascii "name=abc" ∧
    buildJsonIn hm = some (ascii "\x7b\"q\":\"abc\"") ∧ ¬AsAsked hm :=
  ⟨nameRequest, rfl, by decide +kernel, fun h =>
    value_not_passed _ (h.q (by decide +kernel) (by decide +kernel))⟩

end Requests

end Cyctron.Http.Input
