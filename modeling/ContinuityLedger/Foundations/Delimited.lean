import Mathlib

/-! Lists joined with a separator: what is in them, and how they end. Fields joined by a delimiter that they do not contain can be told
apart again, and numbers are told apart by their decimal texts. -/

namespace ContinuityLedger.Foundations.Joined

variable {α : Type*}

lemma mem_intercalate {sep : List α} {c : α} {ls : List (List α)} (h : c ∈ sep.intercalate ls) : c ∈ sep ∨ ∃ l ∈ ls, c ∈ l := by
  induction ls with
  | nil => simp at h
  | cons l ls ih =>
    by_cases hls : ls = []
    · subst hls
      exact Or.inr ⟨l, List.mem_cons_self, by simpa using h⟩
    · rw [List.intercalate_cons_of_ne_nil hls] at h
      simp only [List.append_assoc, List.mem_append] at h
      rcases h with h | h | h
      · exact Or.inr ⟨l, List.mem_cons_self, h⟩
      · exact Or.inl h
      · exact (ih h).imp_right fun ⟨l', hl', hc⟩ => ⟨l', List.mem_cons_of_mem _ hl', hc⟩

lemma intercalate_last (sep : List α) (ls : List (List α)) (last : List α) :
    ∃ pre, sep.intercalate (ls ++ [last]) = pre ++ last := by
  induction ls with
  | nil => exact ⟨[], by simp⟩
  | cons l ls ih =>
    obtain ⟨pre, hpre⟩ := ih
    refine ⟨l ++ sep ++ pre, ?_⟩
    rw [List.cons_append, List.intercalate_cons_of_ne_nil (by simp), hpre, List.append_assoc, List.append_assoc,
      List.append_assoc]

/-- All but the first of the separator's elements belong to what comes behind it. -/
lemma intercalate_cons (x : α) (sep l : List α) (ls : List (List α)) :
    (x :: sep).intercalate (l :: ls) = [x].intercalate (l :: ls.map (sep ++ ·)) := by
  induction ls generalizing l with
  | nil => rfl
  | cons k ls ih =>
    rw [List.intercalate_cons_cons, ih, List.map_cons, List.intercalate_cons_cons]
    cases ls with
    | nil => simp
    | cons j js =>
      simp [List.intercalate_cons_cons]

end ContinuityLedger.Foundations.Joined

namespace ContinuityLedger.Foundations.Delimited

lemma cut {α : Type*} {c : α} {a b x y : List α} (ha : c ∉ a) (hb : c ∉ b) (h : a ++ c :: x = b ++ c :: y) :
    a = b ∧ x = y := by
  induction a generalizing b with
  | nil =>
    cases b with
    | nil => simpa using h
    | cons d b =>
      obtain ⟨rfl, -⟩ := List.cons.inj h
      exact absurd (List.mem_cons_self) hb
  | cons d a ih =>
    cases b with
    | nil =>
      obtain ⟨rfl, -⟩ := List.cons.inj h
      exact absurd (List.mem_cons_self) ha
    | cons e b =>
      obtain ⟨hde, ht⟩ := List.cons.inj h
      obtain ⟨hab, hxy⟩ := ih (List.not_mem_of_not_mem_cons ha) (List.not_mem_of_not_mem_cons hb) ht
      exact ⟨by rw [hde, hab], hxy⟩

lemma not_mem_of_mem_splitOn {α : Type*} [BEq α] [LawfulBEq α] {c : α} {cs seg : List α} (h : seg ∈ cs.splitOn c) :
    c ∉ seg := by
  induction cs generalizing seg with
  | nil =>
    rw [List.splitOn_nil, List.mem_singleton] at h
    simp [h]
  | cons d cs ih =>
    rw [List.splitOn_cons_eq_if_modifyHead] at h
    obtain ⟨first, rest, hsplit⟩ := List.exists_cons_of_ne_nil (List.splitOn_ne_nil c cs)
    split_ifs at h with hd
    · rcases List.mem_cons.mp h with rfl | h
      · simp
      · exact ih h
    · rw [hsplit, List.modifyHead_cons] at h
      rcases List.mem_cons.mp h with rfl | h
      · have hfirst := ih (hsplit ▸ List.mem_cons_self)
        intro hmem
        rcases List.mem_cons.mp hmem with rfl | hmem
        · exact hd (beq_self_eq_true _)
        · exact hfirst hmem
      · exact ih (hsplit ▸ List.mem_cons_of_mem _ h)

/-- A text without the character `c`. -/
def Free (c : Char) (s : String) : Prop := c ∉ s.toList

lemma cut_bar {a b x y : String} (ha : Free '|' a) (hb : Free '|' b) (h : a ++ ("|" ++ x) = b ++ ("|" ++ y)) :
    a = b ∧ x = y := by
  have hl := congrArg String.toList h
  simp only [String.toList_append, String.reduceToList, List.singleton_append] at hl
  obtain ⟨h₁, h₂⟩ := cut ha hb hl
  exact ⟨String.toList_injective h₁, String.toList_injective h₂⟩

lemma free_nat {c : Char} (hc : c.isDigit = false) (n : ℕ) : Free c (toString n) := by
  intro hm
  have hd : c.isDigit = true := by
    refine Nat.isDigit_of_mem_toDigits (b := 10) (n := n) (by decide) (by decide) ?_
    simpa [Free, Nat.repr] using hm
  simp [hc] at hd

lemma free_int {c : Char} (hc : c.isDigit = false) (hm : c ≠ '-') (n : ℤ) : Free c (toString n) := by
  intro hin
  have hrepr : toString n = n.repr := rfl
  rw [hrepr, Int.repr_eq_if] at hin
  split_ifs at hin with h
  · exact free_nat hc _ hin
  · rw [String.toList_append, List.mem_append] at hin
    rcases hin with hin | hin
    · simp only [String.reduceToList, List.mem_singleton] at hin
      exact hm hin
    · exact free_nat hc _ hin

lemma int_text_injective {m n : ℤ} (h : toString m = toString n) : m = n := Int.repr_injective h

end ContinuityLedger.Foundations.Delimited
