/- Cyctron/Ws/Library
   digest: The two spellings of a socket library, and the files that they make the caller load. -/

import Cyctron.Ws.Handler

set_option autoImplicit false
set_option relaxedAutoImplicit false

namespace Cyctron.Ws.Library

open Cyctron.Base.CString Cyctron.Calldyn.Core Cyctron.Ws.Handler

variable {name : Bytes}

def nameByte (c : UInt8) : Bool := isalnum c || c = 95 || c = 45

/-- The file that is documented for a base name. -/
def libraryFile (name : Bytes) : Bytes := ascii "./core/lib" ++ name ++ ascii ".so"

/-- Both spellings lead to the documented file. -/
def Agrees (name : Bytes) : Prop :=
  ffiPath (ascii "lib" ++ name) = libraryFile name ∧
    ffiPath (ascii "lib" ++ name ++ ascii ".so") = libraryFile name

private theorem dot_not_mem (h : name.all nameByte = true) : 46 ∉ name := by
  intro hmem
  exact absurd (List.all_eq_true.mp h 46 hmem) (by decide)

/-- No extension is found in a name without a dot. -/
private theorem hasExtension_lib (h : 46 ∉ name) : hasExtension (ascii "lib" ++ name) = false := by
  have hdot : 46 ∉ ascii "lib" ++ name := by
    rw [List.mem_append, not_or]
    exact ⟨by decide, h⟩
  have hnone : ∀ ext : Bytes, strstr (ascii "lib" ++ name) (46 :: ext) = false := by
    intro ext
    rw [strstr, decide_eq_false_iff_not]
    intro hin
    exact hdot (hin.subset List.mem_cons_self)
  change (strstr (ascii "lib" ++ name) (46 :: _) || strstr (ascii "lib" ++ name) (46 :: _) ||
    strstr (ascii "lib" ++ name) (46 :: _)) = false
  rw [hnone, hnone, hnone]
  rfl

/-- The prefix is written a second time. -/
private theorem ffiPath_lib (h : 46 ∉ name) : ffiPath (ascii "lib" ++ name) =
    snprintf 256 (ascii "./core/lib" ++ (ascii "lib" ++ name) ++ ascii ".so") := by
  rw [ffiPath, hasExtension_lib h, if_neg Bool.false_ne_true]

/-- With its extension the name is taken as it is. -/
private theorem ffiPath_extended : ffiPath (ascii "lib" ++ name ++ ascii ".so") =
    snprintf 256 (libraryFile name) := by
  have hext : hasExtension (ascii "lib" ++ name ++ ascii ".so") = true := by
    have hfound : strstr (ascii "lib" ++ name ++ ascii ".so") (ascii ".so") = true :=
      decide_eq_true (List.suffix_append _ _).isInfix
    rw [hasExtension, hfound]
    rfl
  have hcore : ascii "./core/lib" = ascii "./core/" ++ ascii "lib" := by decide
  rw [ffiPath, hext, if_pos rfl, libraryFile, hcore]
  simp only [List.append_assoc]

/-- A name without its extension never leads to the documented file; with its extension it does when
the path fits its buffer. -/
theorem spellings_disagree (name : Bytes) (h : name.all nameByte = true) :
    ¬Agrees name ∧ ffiPath (ascii "lib" ++ name) ≠ libraryFile name ∧
      ((libraryFile name).length < 256 →
        ffiPath (ascii "lib" ++ name ++ ascii ".so") = libraryFile name) := by
  have hdot := dot_not_mem h
  have hmissed : ffiPath (ascii "lib" ++ name) ≠ libraryFile name := by
    rw [ffiPath_lib hdot]
    intro heq
    have hlens : (ascii "./core/lib").length = 10 ∧ (ascii "lib").length = 3 ∧
        (ascii ".so").length = 3 := by decide
    have hlength := congrArg List.length heq
    simp only [snprintf, libraryFile, List.length_take, List.length_append, hlens] at hlength
    -- the path is cut just to the length of the file, where one has a dot and the other has none
    have hname : name.length = 242 := by omega
    have hcut : snprintf 256 (ascii "./core/lib" ++ (ascii "lib" ++ name) ++ ascii ".so") =
        ascii "./core/lib" ++ (ascii "lib" ++ name) := by
      rw [snprintf]
      refine List.take_left' ?_
      simp only [List.length_append, hlens, hname]
    rw [hcut, libraryFile, List.append_assoc (ascii "./core/lib"), List.append_cancel_left_eq] at heq
    have hmem : 46 ∈ ascii "lib" ++ name := by
      rw [heq]
      exact List.mem_append_right name List.mem_cons_self
    rw [List.mem_append] at hmem
    exact hmem.elim (by decide) hdot
  refine ⟨fun agrees => hmissed agrees.1, hmissed, fun fits => ?_⟩
  rw [ffiPath_extended, snprintf_fits fits]

theorem spellings_disagree_demo : ¬Agrees (ascii "soket_demo") ∧
    ffiPath (ascii "lib" ++ ascii "soket_demo") ≠ libraryFile (ascii "soket_demo") ∧
    ((libraryFile (ascii "soket_demo")).length < 256 →
      ffiPath (ascii "lib" ++ ascii "soket_demo" ++ ascii ".so") = libraryFile (ascii "soket_demo")) :=
  spellings_disagree (ascii "soket_demo") (by decide)

/-- A bind with the default library, named or not, loads another file than the one of its name. -/
theorem default_library_missed :
    ffiPath (bindLib ⟨some (ascii "bind"), some (ascii "a"), none, none⟩) =
      ascii "./core/liblibsoket_demo.so" ∧
    ffiPath (bindLib ⟨some (ascii "bind"), some (ascii "a"), some (ascii "libsoket_demo"), none⟩) =
      ascii "./core/liblibsoket_demo.so" ∧
    ¬Agrees (ascii "soket_demo") := by
  unfold Agrees
  decide +kernel

end Cyctron.Ws.Library
