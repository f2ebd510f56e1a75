import ContinuityLedger.Foundations.HashChain

/-! A chain of entries kept in named segments, of which the oldest are dropped now and then: first the anchor is moved behind
them, then they go one by one. What an interruption leaves lies behind the anchor until the next segments are dropped. -/

namespace ContinuityLedger.Foundations.Rotation

open HashChain

variable {N E H : Type*}

/-- `left` is what an interruption has left behind the anchor. -/
structure Segments (N E H : Type*) where
  base : H
  left : List (N × List E)
  kept : List (N × List E)

def entries (segments : List (N × List E)) : List E := segments.flatMap Prod.snd

@[simp] lemma entries_append (a b : List (N × List E)) : entries (a ++ b) = entries a ++ entries b := List.flatMap_append

namespace Segments

variable (prev own : E → H)

def all (s : Segments N E H) : List (N × List E) := s.left ++ s.kept

def anchor (s : Segments N E H) : H := tip own s.base (entries s.left)

def last (s : Segments N E H) : H := tip own s.base (entries s.all)

end Segments

/-- An entry goes to the last segment where this has its name, and else begins one. -/
def added [DecidableEq N] (n : N) (e : E) (segments : List (N × List E)) : List (N × List E) :=
  match segments.getLast? with
  | none => [(n, [e])]
  | some m => if m.1 = n then segments.dropLast ++ [(n, m.2 ++ [e])] else segments ++ [(n, [e])]

lemma added_nil [DecidableEq N] (n : N) (e : E) : added n e [] = [(n, [e])] := rfl

lemma added_same [DecidableEq N] (n : N) (e : E) (init : List (N × List E)) (es : List E) :
    added n e (init ++ [(n, es)]) = init ++ [(n, es ++ [e])] := by
  simp [added]

lemma added_other [DecidableEq N] {n m : N} (h : m ≠ n) (e : E) (init : List (N × List E)) (es : List E) :
    added n e (init ++ [(m, es)]) = init ++ [(m, es), (n, [e])] := by
  simp [added, h]

/-- What is added, by cases: nothing is there, the last segment takes it, or a new one does. -/
lemma added_cases [DecidableEq N] (n : N) (e : E) (segments : List (N × List E)) :
    (∃ init es, segments = init ++ [(n, es)] ∧ added n e segments = init ++ [(n, es ++ [e])]) ∨
      (∀ m ∈ segments.getLast?, m.1 ≠ n) ∧ added n e segments = segments ++ [(n, [e])] := by
  rcases List.eq_nil_or_concat segments with rfl | ⟨init, ⟨m, es⟩, rfl⟩
  · exact Or.inr ⟨by simp, rfl⟩
  · rw [List.concat_eq_append]
    by_cases h : m = n
    · subst h
      exact Or.inl ⟨init, es, rfl, added_same m e init es⟩
    · refine Or.inr ⟨by simpa using h, ?_⟩
      rw [added_other h, List.append_assoc]
      rfl

lemma added_last [DecidableEq N] (n : N) (e : E) (segments : List (N × List E)) :
    ∃ init es, added n e segments = init ++ [(n, es ++ [e])] := by
  rcases added_cases n e segments with ⟨init, es, -, hadded⟩ | ⟨-, hadded⟩
  · exact ⟨init, es, hadded⟩
  · exact ⟨segments, [], hadded⟩

lemma entries_added [DecidableEq N] (n : N) (e : E) (segments : List (N × List E)) :
    entries (added n e segments) = entries segments ++ [e] := by
  rcases added_cases n e segments with ⟨init, es, rfl, hadded⟩ | ⟨-, hadded⟩
  · rw [hadded]
    simp [entries]
  · rw [hadded]
    simp [entries]

lemma added_append [DecidableEq N] (n : N) (e : E) (front : List (N × List E)) {segments : List (N × List E)}
    (h : segments ≠ []) : added n e (front ++ segments) = front ++ added n e segments := by
  obtain ⟨init, ⟨m, es⟩, rfl⟩ := List.eq_nil_or_concat segments |>.resolve_left h
  rw [List.concat_eq_append, ← List.append_assoc]
  by_cases hm : m = n
  · subst hm
    rw [added_same, added_same, List.append_assoc]
  · rw [added_other hm, added_other hm, List.append_assoc]

lemma added_ne_nil [DecidableEq N] (n : N) (e : E) (segments : List (N × List E)) : added n e segments ≠ [] := by
  intro h
  have hentries := entries_added n e segments
  rw [h] at hentries
  simp [entries] at hentries

/-- Names stay in order where none comes behind the new one. -/
lemma increasing_added [LinearOrder N] {n : N} {segments : List (N × List E)}
    (h : (segments.map Prod.fst).Pairwise (· < ·)) (hn : ∀ m ∈ segments, m.1 ≤ n) (e : E) :
    ((added n e segments).map Prod.fst).Pairwise (· < ·) := by
  rcases added_cases n e segments with ⟨init, es, rfl, hadded⟩ | ⟨hlast, hadded⟩
  · rw [List.map_append] at h
    rw [hadded, List.map_append]
    exact h
  · rw [hadded, List.map_append, List.pairwise_append]
    refine ⟨h, List.pairwise_singleton _ _, ?_⟩
    intro a ha b hb
    obtain rfl : b = n := by simpa using hb
    obtain ⟨m, hm, rfl⟩ := List.mem_map.mp ha
    -- only the last name could be the new one, and it is not
    refine lt_of_le_of_ne (hn m hm) fun hname => ?_
    obtain ⟨init, last, rfl⟩ := List.eq_nil_or_concat segments |>.resolve_left (List.ne_nil_of_mem hm)
    rw [List.concat_eq_append] at h hm hn hlast
    rw [List.map_append, List.pairwise_append] at h
    rcases List.mem_append.mp hm with hinit | hsingle
    · have hlt : m.1 < last.1 := h.2.2 m.1 (List.mem_map_of_mem hinit) last.1 (by simp)
      exact absurd (hn last (by simp)) (not_le_of_gt (hname ▸ hlt))
    · rw [List.mem_singleton.mp hsingle] at hname
      exact hlast last (by simp) hname

lemma filled_added [DecidableEq N] {segments : List (N × List E)} (h : ∀ m ∈ segments, m.2 ≠ []) (n : N) (e : E) :
    ∀ m ∈ added n e segments, m.2 ≠ [] := by
  rcases added_cases n e segments with ⟨init, es, rfl, hadded⟩ | ⟨-, hadded⟩
  · rw [hadded]
    exact List.forall_mem_append.mpr ⟨fun m hm => h m (List.mem_append_left _ hm), by simp⟩
  · rw [hadded]
    exact List.forall_mem_append.mpr ⟨h, by simp⟩

/-- What holds of the segments whenever a step is taken. -/
structure Sound [LT N] (prev own : E → H) (s : Segments N E H) : Prop where
  linked : Linked prev own s.base (entries s.all)
  increasing : (s.all.map Prod.fst).Pairwise (· < ·)
  filled : ∀ m ∈ s.all, m.2 ≠ []
  rest : s.left ≠ [] → s.kept ≠ []

variable {prev own : E → H} {s : Segments N E H}

/-- An entry is added under a name that no segment comes behind. -/
def Segments.add [DecidableEq N] (s : Segments N E H) (n : N) (e : E) : Segments N E H := { s with kept := added n e s.kept }

/-- The segments `old` are dropped as far as `done` of them, the anchor before all. -/
def Segments.drop (s : Segments N E H) (own : E → H) (old young : List (N × List E)) (done : ℕ) : Segments N E H :=
  ⟨tip own s.base (entries (old.take done)), old.drop done, young⟩

lemma tip_append (p : H) (es fs : List E) : tip own p (es ++ fs) = tip own (tip own p es) fs := List.foldl_append

lemma anchor_drop {old young : List (N × List E)} (done : ℕ) :
    (s.drop own old young done).anchor own = tip own s.base (entries old) := by
  rw [Segments.anchor, Segments.drop, ← tip_append, ← entries_append, List.take_append_drop]

lemma all_drop (own : E → H) {old young : List (N × List E)} (h : s.all = old ++ young) (done : ℕ) :
    s.all = old.take done ++ (s.drop own old young done).all := by
  rw [h, Segments.all, Segments.drop, ← List.append_assoc, List.take_append_drop]

lemma last_drop {old young : List (N × List E)} (h : s.all = old ++ young) (done : ℕ) :
    (s.drop own old young done).last own = s.last own := by
  rw [Segments.last, Segments.last, all_drop own h done, entries_append, tip_append]
  rfl

lemma all_add [DecidableEq N] (h : s.left ≠ [] → s.kept ≠ []) (n : N) (e : E) : (s.add n e).all = added n e s.all := by
  unfold Segments.all Segments.add
  dsimp only
  by_cases hkept : s.kept = []
  · have hleft : s.left = [] := by
      by_contra hne
      exact h hne hkept
    rw [hleft]
    rfl
  · rw [added_append n e s.left hkept]

lemma last_add [DecidableEq N] (h : s.left ≠ [] → s.kept ≠ []) (n : N) (e : E) : (s.add n e).last own = own e := by
  rw [Segments.last, all_add h, entries_added, tip_append_singleton]

theorem Sound.add [LinearOrder N] (hs : Sound prev own s) {n : N} (hn : ∀ m ∈ s.all, m.1 ≤ n) {e : E}
    (he : prev e = s.last own) : Sound prev own (s.add n e) := by
  have hall := all_add hs.rest n e
  refine ⟨?_, ?_, ?_, fun _ => added_ne_nil n e s.kept⟩
  · rw [hall, entries_added]
    exact (linked_append_singleton prev own _ _ e).mpr ⟨hs.linked, he⟩
  · rw [hall]
    exact increasing_added hs.increasing hn e
  · rw [hall]
    exact filled_added hs.filled n e

theorem Sound.drop [LinearOrder N] (hs : Sound prev own s) {old young : List (N × List E)} (h : s.all = old ++ young)
    (hyoung : young ≠ []) (done : ℕ) : Sound prev own (s.drop own old young done) := by
  have hall := all_drop own h done
  have hlinked := hs.linked
  have hincreasing := hs.increasing
  rw [hall, entries_append, linked_append] at hlinked
  rw [hall, List.map_append, List.pairwise_append] at hincreasing
  refine ⟨hlinked.2, hincreasing.2.1, fun m hm => hs.filled m ?_, fun _ => hyoung⟩
  rw [hall]
  exact List.mem_append_right _ hm

end ContinuityLedger.Foundations.Rotation
