import Mathlib.Data.Nat.Notation
import Mathlib.Data.List.Basic

/-! Checking a list item by item, where the first item that fails stops the check. -/

namespace ContinuityLedger.Foundations.Checks

variable {α β ε : Type} {f : α → Except ε β}

/-- A bind that succeeds did so in both parts. -/
lemma bind_ok {x : Except ε α} {b : β} (h : (x >>= f) = .ok b) : ∃ a, x = .ok a ∧ f a = .ok b := by
  cases x with
  | error e => cases h
  | ok a => exact ⟨a, rfl, h⟩

lemma map_ok {g : α → β} {x : Except ε α} {b : β} (h : x.map g = .ok b) : ∃ a, x = .ok a ∧ g a = b := by
  cases x with
  | error e => cases h
  | ok a => exact ⟨a, rfl, Except.ok.inj h⟩

/-- The results stand where the items stood. -/
lemma mapM_getElem? {xs : List α} {ys : List β} (h : xs.mapM f = .ok ys) :
    ys.length = xs.length ∧ ∀ (i : ℕ) y, ys[i]? = some y → ∃ x, xs[i]? = some x ∧ f x = .ok y := by
  induction xs generalizing ys with
  | nil =>
    obtain rfl : ys = [] := by simpa [pure, Except.pure] using h.symm
    simp
  | cons x xs ih =>
    rw [List.mapM_cons] at h
    cases hx : f x with
    | error e => simp [hx, bind, Except.bind] at h
    | ok y =>
      cases hxs : xs.mapM f with
      | error e => simp [hx, hxs, bind, Except.bind] at h
      | ok rest =>
        simp only [hx, hxs, bind, Except.bind, pure, Except.pure, Except.ok.injEq] at h
        obtain ⟨hlen, hget⟩ := ih hxs
        subst h
        refine ⟨by simp [hlen], fun i z hz => ?_⟩
        cases i with
        | zero =>
          obtain rfl : y = z := by simpa using hz
          exact ⟨x, by simp, hx⟩
        | succ i =>
          obtain ⟨w, hw, hfw⟩ := hget i z (by simpa using hz)
          exact ⟨w, by simpa using hw, hfw⟩

lemma mapM_ok_iff {xs : List α} {ys : List β} (h : xs.mapM f = .ok ys) :
    (∀ x ∈ xs, ∃ y ∈ ys, f x = .ok y) ∧ ∀ y ∈ ys, ∃ x ∈ xs, f x = .ok y := by
  obtain ⟨hlen, hget⟩ := mapM_getElem? h
  have hback : ∀ y ∈ ys, ∃ x ∈ xs, f x = .ok y := by
    intro y hy
    obtain ⟨i, hi⟩ := List.mem_iff_getElem?.mp hy
    obtain ⟨x, hx, hf⟩ := hget i y hi
    exact ⟨x, List.mem_of_getElem? hx, hf⟩
  refine ⟨fun x hx => ?_, hback⟩
  obtain ⟨i, hi⟩ := List.mem_iff_getElem?.mp hx
  obtain ⟨hlt, -⟩ := List.getElem?_eq_some_iff.mp hi
  obtain ⟨y, hy⟩ : ∃ y, ys[i]? = some y := ⟨_, List.getElem?_eq_getElem (hlen.symm ▸ hlt)⟩
  obtain ⟨w, hw, hf⟩ := hget i _ hy
  obtain rfl : x = w := Option.some.inj (hi.symm.trans hw)
  exact ⟨_, List.mem_of_getElem? hy, hf⟩

lemma mapM_exists {xs : List α} (h : ∀ x ∈ xs, ∃ y, f x = .ok y) : ∃ ys, xs.mapM f = .ok ys := by
  induction xs with
  | nil => exact ⟨[], rfl⟩
  | cons x xs ih =>
    obtain ⟨y, hy⟩ := h x (by simp)
    obtain ⟨ys, hys⟩ := ih fun z hz => h z (List.mem_cons_of_mem _ hz)
    refine ⟨y :: ys, ?_⟩
    rw [List.mapM_cons, hy, hys]
    rfl

lemma mapM_eq_map {g : α → β} {xs : List α} (h : ∀ x ∈ xs, f x = .ok (g x)) : xs.mapM f = .ok (xs.map g) := by
  induction xs with
  | nil => rfl
  | cons x xs ih =>
    rw [List.mapM_cons, h x (by simp), ih fun y hy => h y (List.mem_cons_of_mem _ hy)]
    rfl

end ContinuityLedger.Foundations.Checks
