import ContinuityLedger.Foundations.PyText
import ContinuityLedger.Foundations.PyStr

/-! A text file as `read_text(encoding="utf-8").splitlines()` takes it apart: a file of whole lines that nothing breaks is
taken apart into these lines. -/

namespace ContinuityLedger.Foundations.TextLines

open Sha256

/-- `read_text(encoding="utf-8").splitlines()`; bytes that are no UTF-8 raise. -/
def readLines (file : Bytes) : Option (List (List Char)) :=
  let cs := PyStr.decodeReplace file
  if PyStr.utf8Chars cs = file then some (PyText.lines [] (PyText.newlines cs)) else none

/-- `splitlines` does not end a line in it. -/
def Unbroken (cs : List Char) : Prop := ∀ c ∈ cs, PyText.isLineBreak c = false

lemma unbroken_append {a b : List Char} : Unbroken (a ++ b) ↔ Unbroken a ∧ Unbroken b := List.forall_mem_append

lemma unbroken_cons {c : Char} {cs : List Char} : Unbroken (c :: cs) ↔ PyText.isLineBreak c = false ∧ Unbroken cs :=
  List.forall_mem_cons

lemma unbroken_nil : Unbroken [] := List.forall_mem_nil _

lemma lines_break {cs : List Char} (h : Unbroken cs) (acc rest : List Char) :
    PyText.lines acc (cs ++ '\n' :: rest) = (acc ++ cs) :: PyText.lines [] rest := by
  induction cs generalizing acc with
  | nil =>
    rw [List.nil_append, PyText.lines, List.append_nil]
    · rfl
    · simp
  | cons c cs ih =>
    obtain ⟨hc, hcs⟩ := unbroken_cons.mp h
    rw [List.cons_append, PyText.lines, if_neg (by simp [hc]), ih hcs, List.append_assoc, List.singleton_append]
    · rintro - rfl
      exact absurd hc (by decide)

lemma lines_whole {ls : List (List Char)} (hls : ∀ l ∈ ls, Unbroken l) :
    PyText.lines [] (ls.flatMap (· ++ ['\n'])) = ls := by
  induction ls with
  | nil => rfl
  | cons l ls ih =>
    obtain ⟨hl, hrest⟩ := List.forall_mem_cons.mp hls
    rw [List.flatMap_cons, List.append_assoc, List.singleton_append, lines_break hl, ih hrest]
    rfl

lemma newlines_whole {ls : List (List Char)} (hls : ∀ l ∈ ls, Unbroken l) :
    PyText.newlines (ls.flatMap (· ++ ['\n'])) = ls.flatMap (· ++ ['\n']) := by
  refine PyText.newlines_of_free fun hmem => ?_
  obtain ⟨l, hl, hmem⟩ := List.mem_flatMap.mp hmem
  rcases List.mem_append.mp hmem with hmem | hmem
  · exact absurd (hls l hl _ hmem) (by decide)
  · exact absurd (List.mem_singleton.mp hmem) (by decide)

lemma readLines_whole {ls : List (List Char)} (hls : ∀ l ∈ ls, Unbroken l) :
    readLines (PyStr.utf8Chars (ls.flatMap (· ++ ['\n']))) = some ls := by
  simp only [readLines, PyStr.decode_utf8Chars, if_true, newlines_whole hls, lines_whole hls]

end ContinuityLedger.Foundations.TextLines
