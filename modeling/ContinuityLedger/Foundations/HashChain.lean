import Mathlib.Data.Int.Order.Basic
import Mathlib.Data.List.Sort
import Mathlib.Order.Lattice

/-! Chains of entries in which every entry names the hash of the one before it: one chain after a given
hash, the scan that checks it entry by entry, and many chains kept in one list under a key. -/

namespace ContinuityLedger.Foundations.HashChain

variable {E H R K : Type*}

section Chain

variable (prev own : E → H)

/-- `es` continues a chain whose last hash is `p`. -/
def Linked : H → List E → Prop
  | _, [] => True
  | p, e :: es => prev e = p ∧ Linked (own e) es

/-- The hash a chain ends with when it continues one that ended with `p`. -/
def tip (p : H) (es : List E) : H := es.foldl (fun _ e => own e) p

@[simp] lemma tip_nil (p : H) : tip own p [] = p := rfl

@[simp] lemma tip_append_singleton (p : H) (es : List E) (e : E) : tip own p (es ++ [e]) = own e := by
  simp [tip]

lemma tip_eq_getLast? (p : H) (es : List E) : tip own p es = (es.getLast?.map own).getD p := by
  rcases List.eq_nil_or_concat es with rfl | ⟨fs, e, rfl⟩ <;> simp

@[simp] lemma linked_nil (p : H) : Linked prev own p [] := trivial

@[simp] lemma linked_cons (p : H) (e : E) (es : List E) :
    Linked prev own p (e :: es) ↔ prev e = p ∧ Linked prev own (own e) es := Iff.rfl

lemma linked_append (p : H) (es fs : List E) :
    Linked prev own p (es ++ fs) ↔ Linked prev own p es ∧ Linked prev own (tip own p es) fs := by
  induction es generalizing p with
  | nil => simp
  | cons e es ih => simp only [List.cons_append, linked_cons, ih, and_assoc]; rfl

lemma linked_append_singleton (p : H) (es : List E) (e : E) :
    Linked prev own p (es ++ [e]) ↔ Linked prev own p es ∧ prev e = tip own p es := by
  simp [linked_append]

/-- Entry by entry: `check p e` reports what is wrong with `e` after an entry whose hash is `p`. -/
def scan (check : H → E → List R) : H → List E → List R
  | _, [] => []
  | p, e :: es => check p e ++ scan check (own e) es

variable {prev own}

lemma scan_eq_nil {check : H → E → List R} {good : E → Prop} {p : H} {es : List E}
    (hc : ∀ p e, check p e = [] ↔ prev e = p ∧ good e) :
    scan own check p es = [] ↔ Linked prev own p es ∧ ∀ e ∈ es, good e := by
  induction es generalizing p with
  | nil => simp [scan]
  | cons e es ih =>
    simp only [scan, List.append_eq_nil_iff, hc, ih, linked_cons, List.forall_mem_cons]
    tauto

/-- A scan whose check is silent wherever an entry follows what it names. -/
lemma scan_of_linked {check : H → E → List R} {p : H} {es : List E} (hl : Linked prev own p es)
    (hc : ∀ e ∈ es, check (prev e) e = []) : scan own check p es = [] := by
  induction es generalizing p with
  | nil => rfl
  | cons e es ih =>
    obtain ⟨rfl, hl⟩ := hl
    rw [scan, hc e (by simp), ih hl (fun f hf => hc f (by simp [hf]))]
    rfl

end Chain

section Gapless

variable {seq : E → ℤ} {prev own : E → ℤ × H} {es : List E}

/-- Where the entries of a chain carry numbers, one after the other, all of them come after where it starts. -/
lemma gapless_lower (hp : ∀ e, (prev e).1 = seq e - 1) (ho : ∀ e, (own e).1 = seq e) {p : ℤ × H}
    (h : Linked prev own p es) : ∀ e ∈ es, p.1 < seq e := by
  induction es generalizing p with
  | nil => simp
  | cons e es ih =>
    obtain ⟨rfl, hl⟩ := h
    intro f hf
    rcases List.mem_cons.mp hf with rfl | hf
    · rw [hp]
      exact Int.sub_one_lt_of_le le_rfl
    · have hlt := ih hl f hf
      rw [ho] at hlt
      rw [hp]
      omega

lemma gapless_increasing (hp : ∀ e, (prev e).1 = seq e - 1) (ho : ∀ e, (own e).1 = seq e) {p : ℤ × H}
    (h : Linked prev own p es) : es.Pairwise (fun a b => seq a < seq b) := by
  induction es generalizing p with
  | nil => exact .nil
  | cons e es ih =>
    refine .cons (fun f hf => ?_) (ih h.2)
    rw [← ho e]
    exact gapless_lower hp ho h.2 f hf

/-- The number of the last entry says how many there are. -/
lemma gapless_tip (hp : ∀ e, (prev e).1 = seq e - 1) (ho : ∀ e, (own e).1 = seq e) {p : ℤ × H}
    (h : Linked prev own p es) : (tip own p es).1 = p.1 + es.length := by
  induction es generalizing p with
  | nil => simp
  | cons e es ih =>
    obtain ⟨rfl, hl⟩ := h
    rw [tip, List.foldl_cons, ← tip, ih hl, ho, hp, List.length_cons]
    omega

end Gapless

section Keyed

variable [LinearOrder K] (key : E → K) (own : E → H) (check : H → E → List R) (start : H)

/-- One pass over a list ordered by key: the running hash starts over where the key changes. -/
def scanKeyed : Option K → H → List E → List R
  | _, _, [] => []
  | current, last, e :: es =>
    check (if current = some (key e) then last else start) e ++ scanKeyed (some (key e)) (own e) es

lemma scanKeyed_eq_nil_iff {current : Option K} {last : H} {es : List E}
    (hs : es.Pairwise (fun a b => key a ≤ key b)) (hb : ∀ c ∈ current, ∀ e ∈ es, c ≤ key e) :
    scanKeyed key own check start current last es = [] ↔
      ∀ k, scan own check (if current = some k then last else start)
        (es.filter (fun e => key e = k)) = [] := by
  induction es generalizing current last with
  | nil => simp [scanKeyed, scan]
  | cons e es ih =>
    obtain ⟨he, hs⟩ := List.pairwise_cons.mp hs
    have hih := @ih (some (key e)) (own e) hs (by simpa using he)
    -- a key that has been left behind does not come back
    have hlater : ∀ k, key e ≠ k → current = some k → es.filter (fun e => key e = k) = [] := by
      intro k hk hcur
      have hlt : k < key e := lt_of_le_of_ne (hb k hcur e (by simp)) (Ne.symm hk)
      simp only [List.filter_eq_nil_iff, decide_eq_true_eq]
      exact fun a ha => (hlt.trans_le (he a ha)).ne'
    rw [scanKeyed, List.append_eq_nil_iff, hih]
    constructor
    · rintro ⟨hc, hr⟩ k
      by_cases hk : key e = k
      · subst hk
        simpa [scan, hc] using hr (key e)
      · by_cases hcur : current = some k
        · simp [hk, hlater k hk hcur, scan]
        · simpa [hk, hcur] using hr k
    · intro h
      have hhead := h (key e)
      simp only [List.filter_cons, decide_true, if_true, scan, List.append_eq_nil_iff] at hhead
      refine ⟨hhead.1, fun k => ?_⟩
      by_cases hk : key e = k
      · subst hk
        simpa using hhead.2
      · by_cases hcur : current = some k
        · simp [hlater k hk hcur, scan]
        · simpa [hk, hcur] using h k

end Keyed

end ContinuityLedger.Foundations.HashChain
