import Mathlib.Data.List.Basic
import Mathlib.Tactic

/-! Encodings that say themselves where they end: what is read off the front of a text was written there, and what
was written is read off whatever follows it. -/

namespace ContinuityLedger.Foundations

structure Wire (γ α : Type*) where
  put : α → Option (List γ)
  take : List γ → Option (α × List γ)
  take_put : ∀ {a w} rest, put a = some w → take (w ++ rest) = some (a, rest)
  put_take : ∀ {text a rest}, take text = some (a, rest) → ∃ w, put a = some w ∧ text = w ++ rest

namespace Wire

variable {γ α β : Type*}

/-- One after the other. -/
def pair (c : Wire γ α) (d : Wire γ β) : Wire γ (α × β) where
  put p := (c.put p.1).bind fun v => (d.put p.2).map (v ++ ·)
  take text := (c.take text).bind fun r => (d.take r.2).map fun s => ((r.1, s.1), s.2)
  take_put := by
    intro p w rest h
    obtain ⟨v, hv, hd⟩ := Option.bind_eq_some_iff.mp h
    obtain ⟨x, hx, rfl⟩ := Option.map_eq_some_iff.mp hd
    rw [List.append_assoc, c.take_put _ hv, Option.bind_some, d.take_put rest hx]
    rfl
  put_take := by
    intro text p rest h
    obtain ⟨r, hr, hd⟩ := Option.bind_eq_some_iff.mp h
    obtain ⟨s, hs, heq⟩ := Option.map_eq_some_iff.mp hd
    obtain ⟨rfl, rfl⟩ := Prod.mk.inj heq
    obtain ⟨v, hv, htext⟩ := c.put_take (a := r.1) hr
    obtain ⟨x, hx, hrest⟩ := d.put_take (a := s.1) hs
    exact ⟨v ++ x, by simp [hv, hx], by rw [htext, hrest, List.append_assoc]⟩

/-- The text of a value and nothing after it. -/
def whole (c : Wire γ α) (text : List γ) : Option α :=
  match c.take text with
  | some (a, []) => some a
  | _ => none

lemma whole_iff (c : Wire γ α) {text : List γ} {a : α} : c.whole text = some a ↔ c.put a = some text := by
  constructor
  · intro h
    unfold whole at h
    cases ht : c.take text with
    | none => simp [ht] at h
    | some r =>
      obtain ⟨b, rest⟩ := r
      cases rest with
      | cons _ _ => simp [ht] at h
      | nil =>
        simp only [ht, Option.some.injEq] at h
        subst h
        obtain ⟨w, hw, rfl⟩ := c.put_take ht
        rwa [List.append_nil]
  · intro h
    have ht := c.take_put [] h
    rw [List.append_nil] at ht
    simp [whole, ht]

/-- No two values have one text. -/
lemma put_injective (c : Wire γ α) {a b : α} {w : List γ} (ha : c.put a = some w) (hb : c.put b = some w) : a = b := by
  have h := c.take_put [] ha
  rw [c.take_put [] hb] at h
  simpa using (Prod.mk.inj (Option.some.inj h)).1.symm

end Wire

end ContinuityLedger.Foundations
