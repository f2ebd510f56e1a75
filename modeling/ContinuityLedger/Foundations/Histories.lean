import Mathlib.Data.List.Induction
import Mathlib.Data.List.Nodup

/-! Lists to which entries are only appended: what holds between each entry and those before it, and the last entry of a kind. -/

namespace ContinuityLedger.Foundations.Histories

variable {V K : Type*}

/-- Each entry stands in the relation to the entries before it. -/
def Recorded (R : List V → V → Prop) (vs : List V) : Prop := ∀ n v, vs[n]? = some v → R (vs.take n) v

variable {R R' : List V → V → Prop} {vs ws : List V} {v : V}

lemma recorded_nil : Recorded R [] := fun _ _ h => nomatch h

lemma Recorded.append (h : Recorded R vs) (hv : R vs v) : Recorded R (vs ++ [v]) := by
  intro n w hw
  rcases Nat.lt_trichotomy n vs.length with hn | rfl | hn
  · rw [List.getElem?_append_left hn] at hw
    rw [List.take_append_of_le_length (Nat.le_of_lt hn)]
    exact h n w hw
  · rw [List.getElem?_concat_length] at hw
    obtain rfl := Option.some.inj hw
    rwa [List.take_left]
  · rw [List.getElem?_eq_none (by rw [List.length_append, List.length_singleton]; omega)] at hw
    nomatch hw

lemma Recorded.mem (h : Recorded R vs) (hv : v ∈ vs) : ∃ n, R (vs.take n) v := by
  obtain ⟨n, hn⟩ := List.getElem?_of_mem hv
  exact ⟨n, h n v hn⟩

/-- Entries that tell their own place are told apart. -/
lemma Recorded.nodup {f : V → K} {g : ℕ → V → K} (hg : ∀ m n v w, g m v = g n w → m = n)
    (h : Recorded (fun before v => f v = g before.length v) vs) : (vs.map f).Nodup := by
  rw [List.nodup_iff_getElem?_ne_getElem?]
  intro i j hij hj heq
  rw [List.length_map] at hj
  have hlen {k : ℕ} (hk : k < vs.length) : (vs.take k).length = k := List.length_take_of_le (Nat.le_of_lt hk)
  have hi : i < vs.length := Nat.lt_trans hij hj
  rw [List.getElem?_map, List.getElem?_map, List.getElem?_eq_getElem hi, List.getElem?_eq_getElem hj] at heq
  have hfi : f vs[i] = g (vs.take i).length vs[i] := h i _ (List.getElem?_eq_getElem hi)
  have hfj : f vs[j] = g (vs.take j).length vs[j] := h j _ (List.getElem?_eq_getElem hj)
  rw [hlen hi] at hfi
  rw [hlen hj] at hfj
  exact Nat.ne_of_lt hij (hg _ _ _ _ (hfi.symm.trans ((Option.some.inj heq).trans hfj)))

/-! ### The last entry of a kind -/

def latest (p : V → Bool) (vs : List V) : Option V := (vs.filter p).getLast?

variable {p q : V → Bool}

@[simp] lemma latest_nil : latest p [] = none := rfl

lemma latest_append_of (h : p v = true) (vs : List V) : latest p (vs ++ [v]) = some v := by
  rw [latest, List.filter_append, List.filter_cons_of_pos h, List.filter_nil, List.getLast?_concat]

lemma latest_append_not (h : p v = false) (vs : List V) : latest p (vs ++ [v]) = latest p vs := by
  rw [latest, List.filter_append, List.filter_cons_of_neg (by simp [h]), List.filter_nil, List.append_nil]
  rfl

/-- Entries of other kinds do not change which is the last of this one. -/
lemma latest_append_all (h : ∀ w ∈ ws, p w = false) (vs : List V) : latest p (vs ++ ws) = latest p vs := by
  have hnone : ws.filter p = [] := List.filter_eq_nil_iff.mpr fun w hw => by simp [h w hw]
  rw [latest, List.filter_append, hnone, List.append_nil]
  rfl

lemma latest_mem (h : latest p vs = some v) : v ∈ vs ∧ p v = true := List.mem_filter.mp (List.mem_of_getLast? h)

end ContinuityLedger.Foundations.Histories
