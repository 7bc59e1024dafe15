/- Cyctron/Ws/Paths
   digest: The library path and the socket path of a bind, and when they stay in their directories. -/

import Cyctron.Base.Path
import Cyctron.Ws.Bind

set_option autoImplicit false
set_option relaxedAutoImplicit false

namespace Cyctron.Ws.Paths

open Cyctron.Base.CString Cyctron.Base.Path Cyctron.Calldyn.Core Cyctron.Realtime.Model
open Cyctron.Realtime.Tasks Cyctron.Realtime.Refine Cyctron.Ws.Handler Cyctron.Ws.Bind
open Cyctron.Machine.LinkedList (cell_modify)
open Cyctron.Machine.LinkedQueue (Node cell_cons)

def slash : UInt8 := 47

def dotDot : Bytes := ascii ".."

/-- The path lies in `./core`: no segment after `./core/` goes up. -/
def InsideCore (path : Bytes) : Prop :=
  ∃ rest, path = ascii "./core/" ++ rest ∧ ¬HasSegment slash dotDot rest

/-- The path names a file directly in `/tmp`. -/
def DirectlyInTmp (path : Bytes) : Prop :=
  ∃ name, path = ascii "/tmp/" ++ name ∧ slash ∉ name ∧ name ≠ [] ∧ name ≠ ascii "." ∧ name ≠ dotDot

section Socket

variable {u : Bytes}

/-- The field for the socket path. -/
def socketId (u : Bytes) : Bytes := snprintf 128 (ascii "/tmp/cyctron_" ++ u ++ ascii ".sock")

private theorem socketId_eq :
    socketId u = ascii "/tmp/" ++ (ascii "cyctron_" ++ (u ++ ascii ".sock").take 114) := by
  have hlead : ascii "/tmp/cyctron_" = ascii "/tmp/" ++ ascii "cyctron_" := by decide
  have hlength : (ascii "/tmp/" ++ ascii "cyctron_").length = 13 := by decide
  rw [socketId, snprintf, List.append_assoc, hlead, List.take_append, hlength,
    List.take_of_length_le (by rw [hlength]; decide), List.append_assoc]

private theorem slash_mem_take : slash ∈ (u ++ ascii ".sock").take 114 ↔ slash ∈ u.take 114 := by
  have hsock : ∀ n, slash ∉ (ascii ".sock").take n := by
    intro n hmem
    exact absurd (List.mem_of_mem_take hmem) (by decide)
  rw [List.take_append, List.mem_append]
  exact or_iff_left (hsock _)

private theorem directlyInTmp_iff : DirectlyInTmp (socketId u) ↔ slash ∉ u.take 114 := by
  rw [socketId_eq]
  constructor
  · rintro ⟨name, heq, hname, _⟩
    obtain rfl := List.append_cancel_left heq
    rw [List.mem_append, slash_mem_take, not_or] at hname
    exact hname.2
  · intro hu
    have hmem : slash ∉ ascii "cyctron_" ++ (u ++ ascii ".sock").take 114 := by
      rw [List.mem_append, slash_mem_take, not_or]
      exact ⟨by decide, hu⟩
    have hc : (ascii "cyctron_" ++ (u ++ ascii ".sock").take 114).head? = some 99 := rfl
    refine ⟨_, rfl, hmem, ?_, ?_, ?_⟩ <;> intro h <;> rw [h] at hc <;> revert hc <;> decide

end Socket

section Library

variable {lib rest : Bytes}

private theorem core_append (size : Nat) :
    snprintf (7 + size + 1) (ascii "./core/" ++ rest) = ascii "./core/" ++ rest.take size := by
  have hlength : (ascii "./core/").length = 7 := by decide
  rw [snprintf, Nat.add_sub_cancel, List.take_append, hlength, Nat.add_sub_cancel_left,
    List.take_of_length_le (by rw [hlength]; omega)]

private theorem insideCore_append :
    InsideCore (ascii "./core/" ++ rest) ↔ ¬HasSegment slash dotDot rest := by
  constructor
  · rintro ⟨rest', heq, h⟩
    obtain rfl := List.append_cancel_left heq
    exact h
  · intro h
    exact ⟨rest, rfl, h⟩

/-- The library name goes up: with an extension, when a segment that the path keeps is `..`; without
one, when such a segment comes after the first slash, as the path begins with `lib`, and is closed by
another one, as it ends with `.so`, unless the path is cut in the middle of this end. -/
def GoesUp (lib : Bytes) : Prop :=
  if hasExtension lib then HasSegment slash dotDot (lib.take 248)
  else ascii "/../" <:+: lib.take 245 ∨ (245 ≤ lib.length ∧ ascii "/.." <:+ lib.take 245) ∨
    (lib.length = 244 ∧ ascii "/." <:+ lib)

instance (lib : Bytes) : Decidable (GoesUp lib) := by
  unfold GoesUp
  infer_instance

private theorem closed_concat {x : Bytes} {c : UInt8} (hc : c ≠ 47) :
    ascii "/../" <:+: x ++ [c] ↔ ascii "/../" <:+: x := by
  change [47, 46, 46] ++ [47] <:+: x ++ [c] ↔ [47, 46, 46] ++ [47] <:+: x
  exact infix_concat_of_ne hc

private theorem open_concat {x : Bytes} {c : UInt8} :
    ascii "/.." <:+ x ++ [c] ↔ c = 46 ∧ ascii "/." <:+ x := by
  have hlast : ascii "/.." = ascii "/." ++ [46] := by decide
  rw [hlast, ← List.reverse_prefix, List.reverse_append, List.reverse_append]
  change 46 :: (ascii "/.").reverse <+: c :: x.reverse ↔ _
  rw [List.cons_prefix_cons, List.reverse_prefix]
  exact and_congr_left fun _ => eq_comm

/-- Behind `lib`, a segment `..` needs a slash before it. -/
private theorem segment_behind_lib {x : Bytes} : HasSegment slash dotDot (ascii "lib" ++ x) ↔
    ascii "/../" <:+: x ∨ ascii "/.." <:+ x := by
  have hfirst : ¬ascii "/../" <+: 47 :: 108 :: 105 :: 98 :: (x ++ [47]) := by
    intro h
    have hsecond := (List.cons_prefix_cons.mp (List.cons_prefix_cons.mp h).2).1
    revert hsecond
    decide
  have hlast : ascii "/../" <:+ x ++ [47] ↔ ascii "/.." <:+ x := by
    have hsplit : ascii "/../" = ascii "/.." ++ [47] := by decide
    rw [hsplit]
    exact List.suffix_append_self_iff
  change ascii "/../" <:+: 47 :: 108 :: 105 :: 98 :: (x ++ [47]) ↔ _
  rw [List.infix_cons_iff, or_iff_right hfirst]
  change 47 :: [46, 46, 47] <:+: _ ↔ _
  rw [infix_cons_of_ne (by decide), infix_cons_of_ne (by decide), infix_cons_of_ne (by decide),
    List.infix_concat_iff, or_comm]
  exact or_congr_right hlast

/-- The end `.so` closes a segment `..` only when it is cut after its dot. -/
private theorem cut_goesUp : (ascii "/../" <:+: (lib ++ ascii ".so").take 245 ∨
      ascii "/.." <:+ (lib ++ ascii ".so").take 245) ↔
    ascii "/../" <:+: lib.take 245 ∨ (245 ≤ lib.length ∧ ascii "/.." <:+ lib.take 245) ∨
      (lib.length = 244 ∧ ascii "/." <:+ lib) := by
  rw [List.take_append]
  have hsnoc2 : lib ++ [46, 115] = (lib ++ [46]) ++ [115] := by simp
  have hsnoc3 : lib ++ [46, 115, 111] = (lib ++ [46, 115]) ++ [111] := by simp
  rcases Nat.lt_or_ge lib.length 245 with hlt | hge
  · rw [List.take_of_length_le (Nat.le_of_lt hlt)]
    obtain ⟨n, hn⟩ : ∃ n, 245 - lib.length = n + 1 := ⟨244 - lib.length, by omega⟩
    have hnot : ¬245 ≤ lib.length := by omega
    rw [hn]
    rcases n with _ | _ | n
    · change (ascii "/../" <:+: lib ++ [46] ∨ ascii "/.." <:+ lib ++ [46]) ↔ _
      rw [closed_concat (by decide), open_concat]
      have h244 : lib.length = 244 := by omega
      simp [h244]
    · change (ascii "/../" <:+: lib ++ [46, 115] ∨ ascii "/.." <:+ lib ++ [46, 115]) ↔ _
      rw [hsnoc2, closed_concat (by decide), closed_concat (by decide), open_concat]
      have h243 : lib.length ≠ 244 := by omega
      simp [h243, hnot]
    · have htake : (ascii ".so").take (n + 1 + 1 + 1) = [46, 115, 111] := by
        rw [List.take_of_length_le]
        · decide
        · have hlength : (ascii ".so").length = 3 := by decide
          omega
      rw [htake, hsnoc3, hsnoc2, closed_concat (by decide), closed_concat (by decide),
        closed_concat (by decide), open_concat]
      have hshort : lib.length ≠ 244 := by omega
      simp [hshort, hnot]
  · have hzero : 245 - lib.length = 0 := by omega
    have hne : lib.length ≠ 244 := by omega
    rw [hzero, List.take_zero, List.append_nil]
    simp [hge, hne]

private theorem insideCore_iff : InsideCore (ffiPath lib) ↔ ¬GoesUp lib := by
  unfold ffiPath GoesUp
  by_cases hext : hasExtension lib = true
  · rw [if_pos hext, if_pos hext]
    exact (iff_of_eq (congrArg InsideCore (core_append 248))).trans insideCore_append
  · rw [if_neg hext, if_neg hext, ← cut_goesUp, ← segment_behind_lib]
    have hlead : ascii "./core/lib" ++ lib ++ ascii ".so" =
        ascii "./core/" ++ (ascii "lib" ++ (lib ++ ascii ".so")) := by
      have hsplit : ascii "./core/lib" = ascii "./core/" ++ ascii "lib" := by decide
      rw [hsplit, List.append_assoc, List.append_assoc]
    have htake : (ascii "lib" ++ (lib ++ ascii ".so")).take 248 =
        ascii "lib" ++ (lib ++ ascii ".so").take 245 := by
      have hlength : (ascii "lib").length = 3 := by decide
      rw [List.take_append, hlength, List.take_of_length_le (by rw [hlength]; decide)]
    rw [hlead, ← htake]
    exact (iff_of_eq (congrArg InsideCore (core_append 248))).trans insideCore_append

end Library

section Binds

variable {s : Scheduler} {p k : Nat} {node : RtTaskNode} {libName : Option Bytes} {env : StartEnv}
  {path jsonIn url : Bytes} {ok : Bool} {es : List Event} {req : WsCommand} {u : Bytes}

/-- The libraries that are loaded lie in `./core`, and the sockets that listen are files directly in
`/tmp`. -/
structure StaysInside (es : List Event) : Prop where
  load : ∀ path jsonIn, .load path jsonIn ∈ es → InsideCore path
  listen : ∀ k url ok, .listen k url ok ∈ es →
    ∃ path, url = ascii "ipc://" ++ path ∧ DirectlyInTmp path

/-- What the events of a bind can load and listen on. -/
structure Uses (es : List Event) (lib url : Bytes) : Prop where
  load : ∀ path jsonIn, .load path jsonIn ∈ es → path = ffiPath lib
  listen : ∀ k url' ok, .listen k url' ok ∈ es → url' = url

private theorem uses_pushes {lib : Bytes} (h : Pushes es) : Uses es lib url :=
  ⟨fun _ _ hmem => absurd (h _ hmem) id, fun _ _ _ hmem => absurd (h _ hmem) id⟩

theorem Uses.append {fs : List Event} {lib : Bytes} (h : Uses es lib url) (h' : Uses fs lib url) :
    Uses (es ++ fs) lib url := by
  constructor
  · intro path jsonIn hmem
    rcases List.mem_append.mp hmem with hmem | hmem
    · exact h.load path jsonIn hmem
    · exact h'.load path jsonIn hmem
  · intro k url' ok hmem
    rcases List.mem_append.mp hmem with hmem | hmem
    · exact h.listen k url' ok hmem
    · exact h'.listen k url' ok hmem

private theorem uses_listening {lib : Bytes} :
    Uses (startListening s p node env).2.2 lib (socketUrl node) := by
  unfold startListening
  split
  · exact uses_pushes pushes_nil
  · split
    · exact uses_pushes pushes_nil
    · dsimp only
      split
      · exact ⟨by simp, by simp⟩
      · exact ⟨by simp, by simp⟩

private theorem uses_plugin {lib : Bytes} :
    Uses (startPlugin s p node (some lib) env).2.2 lib url := by
  have hcall : Uses [.load (ffiPath lib) (startJson node)] lib url := ⟨by simp, by simp⟩
  unfold startPlugin
  dsimp only [Option.getD_some]
  split
  · exact hcall.append (uses_pushes pushes_sendRtEvent)
  · exact hcall

private theorem uses_start {lib : Bytes} :
    Uses (rtStartTask s p node (some lib) env).2.2 lib (socketUrl node) := by
  unfold rtStartTask
  split
  · exact uses_pushes pushes_nil
  · dsimp only
    split
    · exact uses_listening.append uses_plugin
    · exact uses_listening

private theorem socketUrl_fresh (connId counter now : Nat) :
    socketUrl (setConnId connId (.fresh u counter now)) = ascii "ipc://" ++ socketId u := by
  have hlead : (ascii "ipc://").length = 6 := by decide
  have hlength : (socketId u).length ≤ 127 := List.length_take_le _ _
  change (ascii "ipc://" ++ socketId u).take 255 = _
  refine List.take_of_length_le ?_
  rw [List.length_append, hlead]
  omega

/-- The call gives no task, or the node that it fills in. -/
private theorem create_node {s t : Scheduler} {env : CreateEnv} {r : Option Nat}
    (hcall : rtCreateTask s (some u) env = (t, r, es)) : (r = none ∧ es = []) ∨
      ∃ p nx, r = some p ∧ t.store.cell p = some ⟨.fresh u s.counter env.now, nx⟩ ∧
        es = .created p u :: sendRtEvent env.format "create" u "created" := by
  unfold rtCreateTask at hcall
  dsimp only at hcall
  split at hcall
  · obtain ⟨_, rfl, rfl⟩ := by simpa only [Prod.mk.injEq] using hcall
    exact Or.inl ⟨rfl, rfl⟩
  · split at hcall
    · obtain ⟨_, rfl, rfl⟩ := by simpa only [Prod.mk.injEq] using hcall
      exact Or.inl ⟨rfl, rfl⟩
    · rename_i p _
      simp only [Prod.mk.injEq] at hcall
      obtain ⟨rfl, rfl, rfl⟩ := hcall
      exact Or.inr ⟨p, s.tasks, rfl, by simp, rfl⟩

/-- A bind loads the library of its command and listens on the path of its name. -/
private theorem uses_bind {s : WsState} {connId : Nat} {env : MessageEnv} (named : Names req u) :
    Uses (handleBind s connId req env).2.2 (bindLib req) (ascii "ipc://" ++ socketId u) := by
  obtain ⟨⟨m, o, fs⟩, hcall⟩ :
    ∃ q, rtCreateTask (withManager s).sched (some u) env.create = q := ⟨_, rfl⟩
  rcases create_node hcall with ⟨rfl, rfl⟩ | ⟨p, nx, rfl, hcell, rfl⟩
  · rw [bind_missed named hcall]
    exact uses_pushes pushes_nil
  · have hcreated : Uses [.created p u] (bindLib req) (ascii "ipc://" ++ socketId u) :=
      ⟨by simp, by simp⟩
    have hset : (m.set p (setConnId connId)).store.cell p = some ⟨setConnId connId
        (.fresh u (withManager s).sched.counter env.create.now), nx⟩ := by
      rw [Scheduler.set, cell_modify, hcell]
      simp
    rw [bind_started named hcall hset]
    refine Uses.append (hcreated.append (uses_pushes pushes_sendRtEvent)) ?_
    rw [← socketUrl_fresh connId (withManager s).sched.counter env.create.now]
    exact uses_start

/-- A bind whose steps all succeed, in a fresh process. -/
def freshEnv : MessageEnv where
  create := ⟨some 0, 0, ⟨true, 0⟩⟩
  start := ⟨some 0, true, 0, ⟨true, 0⟩⟩
  event := ⟨true, 0⟩
  push := ⟨true, 0⟩
  ack := ⟨true, 0⟩

/-- Such a bind loads its library and listens. -/
private theorem fresh_bind (named : Names req u) :
    (∃ jsonIn, .load (ffiPath (bindLib req)) jsonIn ∈
        (handleBind ⟨.initial, false⟩ 0 req freshEnv).2.2) ∧
      .listen 0 (ascii "ipc://" ++ socketId u) true ∈
        (handleBind ⟨.initial, false⟩ 0 req freshEnv).2.2 := by
  obtain ⟨⟨m, o, fs⟩, hcall⟩ : ∃ q, rtCreateTask (withManager ⟨.initial, false⟩).sched
      (some u) freshEnv.create = q := ⟨_, rfl⟩
  have hone : o = some 0 := (congrArg (fun q => q.2.1) hcall).symm
  rcases create_node hcall with ⟨rfl, _⟩ | ⟨p, nx, rfl, hcell, rfl⟩
  · cases hone
  · obtain rfl := Option.some.inj hone
    have hset : (m.set 0 (setConnId 0)).store.cell 0 =
        some ⟨setConnId 0 (.fresh u 0 0), nx⟩ := by
      rw [Scheduler.set, cell_modify, hcell]
      simp only [Option.map_some, if_true]
      rfl
    have hstart : (rtStartTask (m.set 0 (setConnId 0)) 0 (setConnId 0 (.fresh u 0 0))
        (some (bindLib req)) freshEnv.start).2.2 =
        [.opened 0, .listen 0 (socketUrl (setConnId 0 (.fresh u 0 0))) true] ++
        (.load (ffiPath (bindLib req)) (startJson (setConnId 0 (.fresh u 0 0))) ::
          sendRtEvent ⟨true, 0⟩ "bind" (setConnId 0 (.fresh u 0 0)).task.uuid "running") := by
      rfl
    rw [bind_started named hcall hset]
    dsimp only
    rw [hstart, socketUrl_fresh]
    exact ⟨⟨startJson (setConnId 0 (.fresh u 0 0)), by simp⟩, by simp⟩

/-- A bind stays inside its directories exactly when it names no task, or its name has no slash in
the part that the socket path holds and its library does not go up. -/
theorem bind_stays_iff : (∀ s connId env, StaysInside (handleBind s connId req env).2.2) ↔
    (req.uuid = none ∨ req.uuid = some []) ∨
      ∃ u, Names req u ∧ slash ∉ u.take 114 ∧ ¬GoesUp (bindLib req) := by
  constructor
  · intro h
    rcases names_or req with hun | ⟨u, named⟩
    · exact Or.inl hun
    · obtain ⟨⟨jsonIn, hload⟩, hlisten⟩ := fresh_bind named
      have hstays := h ⟨.initial, false⟩ 0 freshEnv
      obtain ⟨path, heq, hdirect⟩ := hstays.listen _ _ _ hlisten
      obtain rfl := List.append_cancel_left heq
      exact Or.inr ⟨u, named, directlyInTmp_iff.mp hdirect,
        insideCore_iff.mp (hstays.load _ _ hload)⟩
  · rintro (hun | ⟨u, named, hu, hlib⟩) s connId env
    · rw [bind_unnamed hun]
      exact ⟨fun _ _ hmem => absurd hmem List.not_mem_nil,
        fun _ _ _ hmem => absurd hmem List.not_mem_nil⟩
    · have huses := @uses_bind req u s connId env named
      constructor
      · intro path jsonIn hmem
        rw [huses.load path jsonIn hmem]
        exact insideCore_iff.mpr hlib
      · intro k url ok hmem
        exact ⟨socketId u, huses.listen k url ok hmem, directlyInTmp_iff.mpr hu⟩

/-- A name and a library that both go up. -/
def bindOut : WsCommand := ⟨some (ascii "bind"), some (ascii "/../x"), some (ascii "../evil.so"), none⟩

/-- The library is loaded from outside `./core`, and the socket path is not in `/tmp` itself. -/
theorem bind_leaves : ¬InsideCore (ascii "./core/../evil.so") ∧
    ¬DirectlyInTmp (ascii "/tmp/cyctron_/../x.sock") ∧
    (∃ jsonIn, .load (ascii "./core/../evil.so") jsonIn ∈
      (handleBind ⟨.initial, false⟩ 0 bindOut freshEnv).2.2) ∧
    .listen 0 (ascii "ipc:///tmp/cyctron_/../x.sock") true ∈
      (handleBind ⟨.initial, false⟩ 0 bindOut freshEnv).2.2 := by
  have hnamed : Names bindOut (ascii "/../x") := by
    unfold Names
    decide
  have hlib : ffiPath (bindLib bindOut) = ascii "./core/../evil.so" := by decide +kernel
  have hsocket : socketId (ascii "/../x") = ascii "/tmp/cyctron_/../x.sock" := by decide +kernel
  have hurl : ascii "ipc://" ++ socketId (ascii "/../x") = ascii "ipc:///tmp/cyctron_/../x.sock" := by
    decide +kernel
  obtain ⟨hload, hlisten⟩ := fresh_bind hnamed
  rw [hlib] at hload
  rw [hurl] at hlisten
  refine ⟨?_, ?_, hload, hlisten⟩
  · rw [← hlib, insideCore_iff]
    decide +kernel
  · rw [← hsocket, directlyInTmp_iff]
    decide +kernel

end Binds

end Cyctron.Ws.Paths
