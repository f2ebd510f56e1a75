import ContinuityLedger.Foundations.Json

/-! The steps that `loads` gives a text: none that it reads takes more than two for each character. -/

namespace ContinuityLedger.Foundations

namespace Json

lemma length_skip (s : PyStr) : (skip s).length ≤ s.length := List.length_dropWhile_le _ _

lemma push_shorter {t : Token} {x : Option (List Token × PyStr)} {n : ℕ} (hx : ∀ r, x = some r → r.2.length < n) :
    ∀ r, x.map (push t) = some r → r.2.length < n := by
  intro r h
  obtain ⟨q, hq, rfl⟩ := Option.map_eq_some_iff.mp h
  exact hx q hq

lemma scanTokens_shorter (s : PyStr) : ∀ r, scanTokens s = some r → r.2.length < s.length := by
  fun_induction scanTokens s with
  | case1 => simp
  | case2 s => simp
  | case3 => simp
  | case4 a b c d s _ ih =>
    intro r h
    obtain ⟨u, -, h⟩ := Option.bind_eq_some_iff.mp h
    have := push_shorter ih r h
    simp only [List.length_cons]
    omega
  | case5 => simp
  | case6 e s _ _ ih =>
    intro r h
    obtain ⟨c, -, h⟩ := Option.bind_eq_some_iff.mp h
    have := push_shorter ih r h
    simp only [List.length_cons]
    omega
  | case7 => simp
  | case8 p s _ _ _ ih =>
    intro r h
    exact (push_shorter ih r h).trans (Nat.lt_succ_self _)

lemma scanString_shorter {s : PyStr} {r : PyStr × PyStr} (h : scanString s = .ok r) : r.2.length < s.length := by
  unfold scanString at h
  cases hs : scanTokens s with
  | none => simp [hs] at h
  | some t =>
    rw [hs] at h
    obtain rfl := Except.ok.inj h
    exact scanTokens_shorter s _ hs

lemma scanWord_shorter {s : PyStr} {r : Json × PyStr} (h : scanWord s = some r) : r.2.length < s.length := by
  unfold scanWord at h
  obtain ⟨w, hw, hr⟩ := List.exists_of_findSome?_eq_some h
  split_ifs at hr with hp
  obtain rfl := Option.some.inj hr
  have hlen := (List.isPrefixOf_iff_prefix.mp hp).length_le
  have hpos : ∀ w ∈ words, 0 < w.1.length ∧ (PyStr.ofString w.1).length = w.1.length := by decide
  obtain ⟨h₁, h₂⟩ := hpos w hw
  simp only [List.length_drop]
  omega

lemma scanNumber_shorter {py : Python} {s : PyStr} {r : Json × PyStr} (h : scanNumber py s = .ok r) :
    r.2.length < s.length := by
  unfold scanNumber at h
  dsimp only at h
  generalize (s.take 1).filter (fun p => decide (p = .scalar '-')) = minus at h
  have hs : whole (s.drop minus.length) ≠ [] → minus.length < s.length := by
    intro hne
    by_contra hle
    rw [List.drop_eq_nil_of_le (Nat.not_lt.mp hle)] at hne
    exact hne rfl
  generalize whole (s.drop minus.length) = digits at h hs
  by_cases hd : digits = []
  · rw [if_pos hd] at h
    cases h
  have hpos := List.length_pos_iff.mpr hd
  have hs := hs hd
  rw [if_neg hd] at h
  split_ifs at h <;> (obtain rfl := Except.ok.inj h; simp only [List.length_drop]; omega)

/-- The steps were enough, and something was read. -/
def Advances {A : Type} (n : ℕ) (x : Except JsonError (A × PyStr)) : Prop :=
  x ≠ .error .steps ∧ ∀ r, x = .ok r → r.2.length < n

lemma advances_value {A : Type} (n : ℕ) : Advances (A := A) n (.error .value) := ⟨by simp, fun _ h => by cases h⟩

lemma advances_ok {A : Type} {n : ℕ} {r : A × PyStr} (h : r.2.length < n) : Advances n (.ok r) := by
  refine ⟨by simp, fun q hq => ?_⟩
  obtain rfl := Except.ok.inj hq
  exact h

lemma Advances.map {A B : Type} {n k : ℕ} {x : Except JsonError (A × PyStr)} (hx : Advances n x) (hn : n ≤ k) (f : A → B) :
    Advances k (x.map fun r => (f r.1, r.2)) := by
  cases x with
  | error e => exact ⟨fun h => hx.1 (by cases h; rfl), fun _ h => by cases h⟩
  | ok r => exact advances_ok ((hx.2 r rfl).trans_le hn)

lemma Advances.bind {A B : Type} {n k : ℕ} {x : Except JsonError (A × PyStr)} {f : A × PyStr → Except JsonError (B × PyStr)}
    (hx : Advances n x) (hf : ∀ r, x = .ok r → Advances k (f r)) : Advances k (x >>= f) := by
  cases x with
  | error e => exact ⟨fun h => hx.1 (by cases h; rfl), fun _ h => by cases h⟩
  | ok r => exact hf r rfl

lemma advances_string (s : PyStr) : Advances s.length (scanString s) := by
  refine ⟨?_, fun r h => scanString_shorter h⟩
  unfold scanString
  split <;> simp

lemma advances_number (py : Python) (s : PyStr) : Advances s.length (scanNumber py s) := by
  refine ⟨?_, fun r h => scanNumber_shorter h⟩
  unfold scanNumber
  dsimp only
  split_ifs <;> simp

/-- Two steps for each character are enough. -/
lemma scan_advances (py : Python) (steps : ℕ) :
    (∀ room s, 2 * s.length + 1 ≤ steps → Advances s.length (scanValue py steps room s)) ∧
    (∀ room s, 2 * s.length + 2 ≤ steps → Advances s.length (scanItems py steps room s)) ∧
    (∀ room s, 2 * s.length + 2 ≤ steps → Advances s.length (scanMembers py steps room s)) := by
  induction steps with
  | zero => exact ⟨fun _ _ h => absurd h (by omega), fun _ _ h => absurd h (by omega), fun _ _ h => absurd h (by omega)⟩
  | succ steps ih =>
    obtain ⟨hvalue, hitems, hmembers⟩ := ih
    refine ⟨fun room s hs => ?_, fun room s hs => ?_, fun room s hs => ?_⟩
    · cases s with
      | nil =>
        rw [scanValue.eq_def]
        exact advances_value _
      | cons p s =>
        have hlen := length_skip s
        simp only [List.length_cons] at hs
        rw [scanValue.eq_def, List.length_cons]
        simp only
        by_cases hq : p = .scalar '"'
        · rw [if_pos hq]
          exact (advances_string s).map (Nat.le_succ _) str
        rw [if_neg hq]
        by_cases ho : p = .scalar '{'
        · rw [if_pos ho]
          cases room with
          | zero => exact ⟨by simp, fun _ h => by cases h⟩
          | succ room =>
            simp only
            split_ifs
            · exact advances_ok (by simp only [List.length_tail]; omega)
            · exact (hmembers room (skip s) (by omega)).map (Nat.le_succ_of_le hlen) fun ms => obj (Dict.ofPairs ms)
        rw [if_neg ho]
        by_cases ha : p = .scalar '['
        · rw [if_pos ha]
          cases room with
          | zero => exact ⟨by simp, fun _ h => by cases h⟩
          | succ room =>
            simp only
            split_ifs
            · exact advances_ok (by simp only [List.length_tail]; omega)
            · exact (hitems room (skip s) (by omega)).map (Nat.le_succ_of_le hlen) arr
        rw [if_neg ha]
        cases hword : scanWord (p :: s) with
        | none => exact advances_number py (p :: s)
        | some r => exact advances_ok (scanWord_shorter hword)
    · rw [scanItems]
      refine (hvalue room s (by omega)).bind fun r hr => ?_
      have hshort := (hvalue room s (by omega)).2 r hr
      have hlen := length_skip r.2
      have htail := length_skip (skip r.2).tail
      have hcut := List.length_tail (l := skip r.2)
      simp only [bind, Except.bind, throw, throwThe, MonadExceptOf.throw, ne_eq, ite_not, pure, Except.pure]
      split_ifs
      · exact advances_ok (by simp only [List.length_tail]; omega)
      · refine Advances.bind (hitems room _ (by omega)) fun q hq => ?_
        have := (hitems room _ (by omega)).2 q hq
        exact advances_ok (by simp only; omega)
      · exact advances_value _
    · rw [scanMembers]
      simp only [throw, throwThe, MonadExceptOf.throw, ne_eq, ite_not, pure, Except.pure]
      split_ifs
      · have hkey := advances_string s.tail
        have hkeyLen := List.length_tail (l := s)
        refine hkey.bind fun k hk => ?_
        have hk := hkey.2 k hk
        have hlen := length_skip k.2
        have hcut := List.length_tail (l := skip k.2)
        have htail := length_skip (skip k.2).tail
        split_ifs
        · have hone := hvalue room (skip (skip k.2).tail) (by omega)
          refine hone.bind fun j hj => ?_
          have hj := hone.2 j hj
          have hlen' := length_skip j.2
          have hcut' := List.length_tail (l := skip j.2)
          have htail' := length_skip (skip j.2).tail
          split_ifs
          · exact advances_ok (by simp only [List.length_tail]; omega)
          · have hmore := hmembers room (skip (skip j.2).tail) (by omega)
            refine hmore.bind fun q hq => ?_
            have hq := hmore.2 q hq
            exact advances_ok (by simp only; omega)
          · exact advances_value _
        · exact advances_value _
      · exact advances_value _

/-- The steps that a text is given are enough for it. -/
lemma loads_steps (py : Python) (s : PyStr) : loads py s ≠ .error .steps := by
  have hlen := length_skip s
  have hscan := ((scan_advances py (2 * s.length + 2)).1 py.loadsNesting (skip s) (by omega)).1
  unfold loads
  simp only [bind, Except.bind, throw, throwThe, MonadExceptOf.throw, ne_eq, ite_not, pure, Except.pure]
  cases hv : scanValue py (2 * s.length + 2) py.loadsNesting (skip s) with
  | error e =>
    rw [hv] at hscan
    split_ifs
    · simp
    · exact fun h => hscan (by cases h; rfl)
  | ok r =>
    split_ifs
    · simp
    · simp only
      split_ifs <;> simp

end Json

end ContinuityLedger.Foundations
