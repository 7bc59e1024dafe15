/- Cyctron/Ws/Command
   digest: What ws_command_parse takes from an object, and what it frees. -/

import Cyctron.Call.Accept
import Cyctron.Call.Memory
import Cyctron.Mongoose.Reach
import Cyctron.Ws.Handler

set_option autoImplicit false
set_option relaxedAutoImplicit false

namespace Cyctron.Ws.Command

open Cyctron.Base.CString Cyctron.Json.Text Cyctron.Json.Build Cyctron.Json.Escape
open Cyctron.Machine.Ledger Cyctron.Mongoose.Json Cyctron.Mongoose.Object
open Cyctron.Mongoose.Strings Cyctron.Mongoose.Reach Cyctron.Call.Memory
open Cyctron.Call.Accept (nested derives_nested)
open Cyctron.Machine.Holdings (items_none)
open Cyctron.Ws.Handler (WS_COMMAND_MAX_PAYLOAD WsCommand wsCommandParse)

/-- The strings of a command, each in a block of its own. -/
structure CommandAt where
  cmd : Option Str
  uuid : Option Str
  lib : Option Str
  data : Option Str
  deriving DecidableEq

def CommandAt.zero : CommandAt := ⟨none, none, none, none⟩

/-- `ws_command_free`. -/
def wsCommandFree (h : Heap) (req : CommandAt) : Heap × CommandAt :=
  (freeStr (freeStr (freeStr (freeStr h req.cmd) req.uuid) req.lib) req.data, .zero)

/-- Return code, result, error buffer and heap after the parser. -/
structure Parsed where
  code : Int
  req : CommandAt
  err : Bytes
  heap : Heap

/-- `ws_command_parse` with its allocations. -/
def wsCommandParseAt (mem : Nat → Bool) (payload : Option Bytes) (buf : Bytes) : Parsed :=
  let err := clearErr buf
  match payload with
  | none => ⟨-1, .zero, storeErr err "invalid payload size", .initial⟩
  | some json =>
    if json.length = 0 ∨ WS_COMMAND_MAX_PAYLOAD < json.length then
      ⟨-1, .zero, storeErr err "invalid payload size", .initial⟩
    else
      let cmd := mgJsonGetStrAt mem .initial json "$.cmd"
      let out := { CommandAt.zero with cmd := cmd.2 }
      if (cmd.2.map Str.text).getD [] = [] then
        let f := wsCommandFree cmd.1 out
        ⟨-1, f.2, storeErr err "missing cmd", f.1⟩
      else
        let uuid := mgJsonGetStrAt mem cmd.1 json "$.uuid"
        let lib := mgJsonGetStrAt mem uuid.1 json "$.lib"
        let data := mgJsonGetStrAt mem lib.1 json "$.data"
        ⟨0, ⟨cmd.2, uuid.2, lib.2, data.2⟩, err, data.1⟩

/-- What a field may be: the value of a reached string exactly when the reader knows its escapes, and
nothing when no string is reached. -/
structure Delivers (ms : List (Bytes × Bytes)) (key : Bytes) (field : Option Str) : Prop where
  value : ∀ b, Reaches key ms (quoted b) → (field.map Str.text = some (decode b) ↔ Simple b)
  absent : (∀ b, ¬Reaches key ms (quoted b)) → field = none

variable {mem : Nat → Bool} {payload : Option Bytes} {json buf key : Bytes}
  {ms : List (Bytes × Bytes)} {path : String} {h : Heap} {m : Multiset Nat}

section Blocks

/-- Every block of the result is held. -/
structure Held (r : Parsed) : Prop where
  code : r.code = 0 ∨ (r.code = -1 ∧ r.req = .zero)
  holds : r.heap.Holds (blocks r.req.cmd + (blocks r.req.uuid + (blocks r.req.lib +
    blocks r.req.data)))

private theorem blocks_none : blocks none = 0 := items_none

private theorem commandFree_holds {req : CommandAt}
    (hold : h.Holds (blocks req.cmd + (blocks req.uuid +
    (blocks req.lib + blocks req.data)))) : (wsCommandFree h req).1.Holds 0 := by
  rw [← add_zero (blocks req.data)] at hold
  exact freeStr_holds (freeStr_holds (freeStr_holds (freeStr_holds hold)))

private theorem zero_holds (hold : h.Holds 0) : h.Holds (blocks CommandAt.zero.cmd +
    (blocks CommandAt.zero.uuid + (blocks CommandAt.zero.lib + blocks CommandAt.zero.data))) := by
  simpa [CommandAt.zero, blocks_none] using hold

private theorem parse_held (mem : Nat → Bool) (payload : Option Bytes) (buf : Bytes) :
    Held (wsCommandParseAt mem payload buf) := by
  cases payload with
  | none => exact ⟨Or.inr ⟨rfl, rfl⟩, zero_holds holds_initial⟩
  | some json =>
    have hcmd := getStrAt_holds mem json "$.cmd" holds_initial
    unfold wsCommandParseAt
    dsimp only
    split
    · exact ⟨Or.inr ⟨rfl, rfl⟩, zero_holds holds_initial⟩
    split
    · refine ⟨Or.inr ⟨rfl, rfl⟩, zero_holds (commandFree_holds ?_)⟩
      simpa [CommandAt.zero, blocks_none] using hcmd
    · refine ⟨Or.inl rfl, ?_⟩
      have huuid := getStrAt_holds mem json "$.uuid" hcmd
      have hlib := getStrAt_holds mem json "$.lib" huuid
      have hdata := getStrAt_holds mem json "$.data" hlib
      dsimp only
      refine Eq.mp (congrArg _ ?_) hdata
      rw [add_zero]
      ac_rfl

end Blocks

section Objects

private theorem getStrAt_all : (mgJsonGetStrAt (fun _ => true) h json path).2.map Str.text =
    mgJsonGetStr json path := getStrAt_text

/-- The fields of an accepted command are looked up one by one. -/
private theorem parse_fields (size : json.length ≠ 0 ∧ json.length ≤ WS_COMMAND_MAX_PAYLOAD) :
    let r := wsCommandParseAt (fun _ => true) (some json) buf
    (r.code = 0 ↔ (mgJsonGetStr json "$.cmd").getD [] ≠ []) ∧
      (r.code = 0 → r.req.cmd.map Str.text = mgJsonGetStr json "$.cmd" ∧
        r.req.uuid.map Str.text = mgJsonGetStr json "$.uuid" ∧
        r.req.lib.map Str.text = mgJsonGetStr json "$.lib" ∧
        r.req.data.map Str.text = mgJsonGetStr json "$.data") := by
  have hsize : ¬(json.length = 0 ∨ WS_COMMAND_MAX_PAYLOAD < json.length) :=
    not_or.mpr ⟨size.1, Nat.not_lt.mpr size.2⟩
  have hminus : ¬(-1 : Int) = 0 := by decide
  intro r
  simp only [r]
  unfold wsCommandParseAt
  dsimp only
  rw [if_neg hsize, getStrAt_all]
  by_cases hcmd : (mgJsonGetStr json "$.cmd").getD [] = []
  · rw [if_pos hcmd]
    exact ⟨iff_of_false hminus fun hne => hne hcmd, fun hzero => absurd hzero hminus⟩
  · rw [if_neg hcmd]
    exact ⟨iff_of_true rfl hcmd, fun _ => ⟨getStrAt_all, getStrAt_all, getStrAt_all, getStrAt_all⟩⟩

private theorem reaches_mem {v : Bytes} (h : Reaches key ms v) : (key, v) ∈ ms := by
  obtain ⟨front, back, rfl, _⟩ := h
  exact List.mem_append_right front List.mem_cons_self

private theorem object_derives (h : IsObject json ms) {a : Bytes × Bytes} (ha : a ∈ ms) :
    ∃ d, Derives AnyNumber .value d a.2 := by
  obtain ⟨d, h⟩ := h
  cases h with
  | empty _ _ _ => exact absurd ha List.not_mem_nil
  | full _ h _ => exact ⟨d, members_derives h ms rfl a ha⟩

/-- What the reader gives for a name, in terms of the members. -/
private theorem getStr_delivers (hpath : ascii path = 36 :: 46 :: key) (h : IsObject json ms)
    (size : json.length ≤ WS_COMMAND_MAX_PAYLOAD) :
    (∀ b, Reaches key ms (quoted b) → (mgJsonGetStr json path = some (decode b) ↔ Simple b)) ∧
      ((∀ b, ¬Reaches key ms (quoted b)) → mgJsonGetStr json path = none) := by
  obtain ⟨hreached, hmissed⟩ := getStr_reaches hpath h (Nat.lt_of_le_of_lt size (by decide))
  refine ⟨fun b hb => ?_, fun hno => ?_⟩
  · obtain ⟨d, hvalue⟩ := object_derives h (reaches_mem hb)
    obtain ⟨b', hb', heq⟩ := value_string hvalue
    obtain rfl : b = b' := List.append_cancel_right (List.cons.inj heq).2
    rw [hreached _ hb]
    exact readString_iff_simple hb'
  · by_cases hany : ∃ v, Reaches key ms v
    · obtain ⟨v, hv⟩ := hany
      rw [hreached v hv]
      refine (readString_other fun hquote => ?_).1
      obtain ⟨d, hvalue⟩ := object_derives h (reaches_mem hv)
      obtain ⟨c, u, rfl⟩ := List.exists_cons_of_ne_nil (value_ne_nil hvalue)
      obtain rfl := Option.some.inj hquote
      obtain ⟨b, _, heq⟩ := value_string hvalue
      rw [heq] at hv
      exact hno b hv
    · exact hmissed fun v hv => hany ⟨v, hv⟩

private theorem delivers_of {field : Option Str} (hpath : ascii path = 36 :: 46 :: key)
    (h : IsObject json ms)
    (size : json.length ≤ WS_COMMAND_MAX_PAYLOAD)
    (hfield : field.map Str.text = mgJsonGetStr json path) : Delivers ms key field := by
  obtain ⟨hvalue, habsent⟩ := getStr_delivers hpath h size
  refine ⟨fun b hb => ?_, fun hno => Option.map_eq_none_iff.mp (hfield.trans (habsent hno))⟩
  rw [hfield]
  exact hvalue b hb

/-- On an object, the command is accepted exactly when its first member cmd is reached and a string
that is not empty. -/
private theorem object_accepted (h : IsObject json ms) (size : json.length ≤ WS_COMMAND_MAX_PAYLOAD)
    (known : ∀ b, Reaches (ascii "cmd") ms (quoted b) → Simple b) :
    (wsCommandParseAt (fun _ => true) (some json) buf).code = 0 ↔
      ∃ b, Reaches (ascii "cmd") ms (quoted b) ∧ decode b ≠ [] := by
  have hne : json.length ≠ 0 := by
    obtain ⟨d, h⟩ := h
    exact object_length h
  obtain ⟨hvalue, habsent⟩ := getStr_delivers
    (show ascii "$.cmd" = 36 :: 46 :: ascii "cmd" by decide) h size
  rw [(parse_fields ⟨hne, size⟩).1]
  constructor
  · intro hcmd
    by_cases hany : ∃ b, Reaches (ascii "cmd") ms (quoted b)
    · obtain ⟨b, hb⟩ := hany
      rw [(hvalue b hb).mpr (known b hb), Option.getD_some] at hcmd
      exact ⟨b, hb, hcmd⟩
    · rw [habsent fun b hb => hany ⟨b, hb⟩] at hcmd
      exact absurd rfl hcmd
  · rintro ⟨b, hb, hdecode⟩
    rw [(hvalue b hb).mpr (known b hb), Option.getD_some]
    exact hdecode

/-- With memory for everything, the parser with its allocations computes what the parser of commands
does. -/
theorem parse_refines (getLong : Bytes → String → Int → Int) (payload : Option Bytes)
    (buf : Bytes) :
    let r := wsCommandParseAt (fun _ => true) payload buf
    let p := wsCommandParse (mongoose getLong) payload buf.length
    r.code = p.1 ∧ (⟨r.req.cmd.map Str.text, r.req.uuid.map Str.text, r.req.lib.map Str.text,
      r.req.data.map Str.text⟩ : WsCommand) = p.2.1 := by
  cases payload with
  | none => exact ⟨rfl, rfl⟩
  | some json =>
    intro r p
    simp only [r, p]
    unfold wsCommandParseAt wsCommandParse
    dsimp only
    by_cases hsize : json.length = 0 ∨ WS_COMMAND_MAX_PAYLOAD < json.length
    · rw [if_pos hsize, if_pos hsize]
      exact ⟨rfl, rfl⟩
    rw [if_neg hsize, if_neg hsize, getStrAt_all]
    have hget : ∀ path, (mongoose getLong).getStr json path = mgJsonGetStr json path := fun _ => rfl
    rw [hget, hget, hget, hget]
    cases hcmd : mgJsonGetStr json "$.cmd" with
    | none => exact ⟨rfl, rfl⟩
    | some c =>
      cases c with
      | nil => exact ⟨rfl, rfl⟩
      | cons x c =>
        rw [Option.getD_some, if_neg (List.cons_ne_nil x c)]
        dsimp only
        rw [getStrAt_all, getStrAt_all, getStrAt_all, getStrAt_all, hcmd]
        exact ⟨rfl, rfl⟩

end Objects

section Parsed

/-- Whatever the payload is and whichever allocations fail, a refusal leaves nothing behind, and a
command is given back by one call of `ws_command_free`. An object of at most 1 MiB is accepted exactly
when its first member cmd is reached and a string that is not empty; then each field is the value of
the first member of its name, where this is reached, a string, and written with escapes that the reader
knows, and NULL where it is not reached or no string. -/
theorem command_parsed (mem : Nat → Bool) (payload : Option Bytes) (buf : Bytes) :
    let r := wsCommandParseAt mem payload buf
    (r.code = 0 ∨ r.code = -1) ∧
    (r.code = -1 → r.req = .zero ∧ Leaves r.heap.ops 0 ∧
      ∀ b, .alloc b ∈ r.heap.ops → r.heap.ops.count (.free b) = 1) ∧
    (r.code = 0 → Leaves (wsCommandFree r.heap r.req).1.ops 0) ∧
    ∀ json ms, payload = some json → json.length ≤ WS_COMMAND_MAX_PAYLOAD → IsObject json ms →
      (∀ n, mem n = true) →
      ((∀ b, Reaches (ascii "cmd") ms (quoted b) → Simple b) →
        (r.code = 0 ↔ ∃ b, Reaches (ascii "cmd") ms (quoted b) ∧ decode b ≠ [])) ∧
      (r.code = 0 → Delivers ms (ascii "cmd") r.req.cmd ∧ Delivers ms (ascii "uuid") r.req.uuid ∧
        Delivers ms (ascii "lib") r.req.lib ∧ Delivers ms (ascii "data") r.req.data) := by
  intro r
  have hheld : Held r := parse_held mem payload buf
  have hminus : ¬(-1 : Int) = 0 := by decide
  refine ⟨hheld.code.imp_right And.left, fun hcode => ?_,
    fun _ => (commandFree_holds hheld.holds).leaves, ?_⟩
  · have hzero : r.req = .zero := (hheld.code.resolve_left fun h => hminus (hcode.symm.trans h)).2
    have hleaves : Leaves r.heap.ops 0 := by
      have hholds := hheld.holds.leaves
      rw [hzero] at hholds
      simpa [CommandAt.zero, blocks_none] using hholds
    exact ⟨hzero, hleaves, fun b hb => hleaves.freed_once hb (Multiset.notMem_zero b)⟩
  · rintro json ms rfl size h hmem
    obtain rfl : mem = fun _ => true := funext hmem
    refine ⟨object_accepted h size, fun hcode => ?_⟩
    have hne : json.length ≠ 0 := by
      obtain ⟨d, h⟩ := h
      exact object_length h
    obtain ⟨hcmd, huuid, hlib, hdata⟩ := (parse_fields ⟨hne, size⟩).2 hcode
    exact ⟨delivers_of (by decide) h size hcmd, delivers_of (by decide) h size huuid,
      delivers_of (by decide) h size hlib, delivers_of (by decide) h size hdata⟩

def commandAt (json : Bytes) : Parsed := wsCommandParseAt (fun _ => true) (some json) [0, 0]

/-- A command with a value behind it that is nested too deep for the reader. -/
def deepCommand : List (Bytes × Bytes) :=
  [(ascii "uuid", quoted (ascii "u1")), (ascii "cmd", quoted (ascii "b\\nd")), (ascii "x", nested 30)]

private theorem simple_newline : Simple (ascii "b\\nd") :=
  .plain (by decide) (by decide) (by decide)
    (.short (by decide) (.plain (by decide) (by decide) (by decide) .nil))

private theorem object_deepCommand : IsObject (compact deepCommand) deepCommand := by
  refine ⟨30, object_compact ?_⟩
  exact .cons (body_plain (by decide)) (padded_quoted (body_plain (by decide))) <|
    .cons (body_plain (by decide)) (padded_quoted (body_simple simple_newline)) <|
    .one (body_plain (by decide)) (padded_self (derives_nested 30))

/-- What stands behind the command does no harm. -/
theorem deepCommand_parsed : (commandAt (compact deepCommand)).code = 0 ∧
    (commandAt (compact deepCommand)).req.cmd.map Str.text = some (ascii "b\nd") ∧
    (commandAt (compact deepCommand)).req.uuid.map Str.text = some (ascii "u1") ∧
    (commandAt (compact deepCommand)).req.lib = none := by
  have huuid : Reaches (ascii "uuid") deepCommand (quoted (ascii "u1")) := (reaches_first _ _ _).mpr rfl
  have hcmd : Reaches (ascii "cmd") deepCommand (quoted (ascii "b\\nd")) :=
    (reaches_cons (by decide)).mpr ⟨.string (body_plain (by decide)), (reaches_first _ _ _).mpr rfl⟩
  have hname : ascii "lib" ∉ deepCommand.map Prod.fst := by decide
  have hlib : ∀ b, ¬Reaches (ascii "lib") deepCommand (quoted b) := fun b hb =>
    hname (List.mem_map_of_mem (f := Prod.fst) (reaches_mem hb))
  have hknown : ∀ b, Reaches (ascii "cmd") deepCommand (quoted b) → Simple b := by
    intro b hb
    have hfirst := (reaches_first _ _ _).mp ((reaches_cons (by decide)).mp hb).2
    obtain rfl : b = ascii "b\\nd" := List.append_cancel_right (List.cons.inj hfirst).2
    exact simple_newline
  obtain ⟨_, _, _, hobject⟩ := command_parsed (fun _ => true) (some (compact deepCommand)) [0, 0]
  obtain ⟨haccepted, hfields⟩ := hobject _ _ rfl (by decide +kernel) object_deepCommand fun _ => rfl
  have hcode := (haccepted hknown).mpr ⟨_, hcmd, by decide⟩
  obtain ⟨hcmdField, huuidField, hlibField, _⟩ := hfields hcode
  exact ⟨hcode, (hcmdField.value _ hcmd).mpr simple_newline, (huuidField.value _ huuid).mpr
    (simple_plain (by decide)), hlibField.absent hlib⟩

/-- The same value before the command. -/
def buriedCommand : List (Bytes × Bytes) := [(ascii "x", nested 30), (ascii "cmd", quoted (ascii "x"))]

/-- A text that is cut short is accepted; a command behind a value that is nested too deep, or under a
name that is written with an escape, is not; and a letter that is written as an escape is changed. -/
theorem commands_are_lazy :
    ((commandAt (ascii "\x7b\"cmd\":\"x\"")).code = 0 ∧ ¬∃ ms, IsObject (ascii "\x7b\"cmd\":\"x\"") ms) ∧
    (IsObject (compact buriedCommand) buriedCommand ∧
      lookup (ascii "cmd") buriedCommand = some (quoted (ascii "x")) ∧
      (commandAt (compact buriedCommand)).code = -1) ∧
    (IsObject (compact [(ascii "\\u0063md", quoted (ascii "x"))]) [(ascii "\\u0063md", quoted (ascii "x"))] ∧
      decode (ascii "\\u0063md") = ascii "cmd" ∧
      (commandAt (compact [(ascii "\\u0063md", quoted (ascii "x"))])).code = -1) ∧
    (IsObject (compact [(ascii "cmd", quoted (ascii "\\u00e9"))]) [(ascii "cmd", quoted (ascii "\\u00e9"))] ∧
      decode (ascii "\\u00e9") = [195, 169] ∧
      (commandAt (compact [(ascii "cmd", quoted (ascii "\\u00e9"))])).req.cmd.map Str.text = some [233]) := by
  have hfour : ∀ {h b : Bytes}, h.length = 4 → (∀ c ∈ h, isHex c = true) → Body b →
      Body (92 :: 117 :: (h ++ b)) := .unicode
  refine ⟨⟨by decide +kernel, ?_⟩, ⟨⟨30, object_compact ?_⟩, by decide +kernel, by decide +kernel⟩,
    ⟨⟨0, object_compact ?_⟩, by decide, by decide +kernel⟩,
    ⟨⟨0, object_compact ?_⟩, by decide, by decide +kernel⟩⟩
  · rintro ⟨ms, d, h⟩
    have hlast : ascii "\x7b\"cmd\":\"x\"" = ascii "\x7b\"cmd\":\"x" ++ [34] := by decide +kernel
    rw [hlast] at h
    exact absurd (object_last h) (by decide)
  · exact .cons (body_plain (by decide)) (padded_self (derives_nested 30)) <|
      .one (body_plain (by decide)) (padded_quoted (body_plain (by decide)))
  · exact .one (hfour (h := [48, 48, 54, 51]) rfl (List.all_eq_true.mp (by decide))
      (body_plain (s := ascii "md") (by decide)))
      (padded_quoted (body_plain (by decide)))
  · exact .one (body_plain (by decide)) (padded_quoted
      (hfour (h := [48, 48, 101, 57]) rfl (List.all_eq_true.mp (by decide)) .nil))

end Parsed

end Cyctron.Ws.Command
