import Mathlib
import ContinuityLedger.Foundations.CalendarOrder
import ContinuityLedger.Foundations.JsonRead
import ContinuityLedger.Foundations.JsonTorn

/-! What `loads` returns: no number longer than Python reads, no key twice in a dict, no more containers in one another than
there was room for; so the text of a value that has been read determines it. -/

namespace ContinuityLedger.Foundations.Json

/-- A float's text reads as the float, for all that are read. -/
def Rereading (py : Python) : Prop := ∀ s t r, scanNumber py s = .ok (.float t, r) → Rereads py t

variable {py : Python}

/-! ### Numbers and words -/

lemma digit_char {p : PyChar} (h : isDigit p = true) : PyText.isAsciiDigit (Char.ofNat (PyStr.code p)) = true := by
  simp only [isDigit, Bool.and_eq_true, decide_eq_true_eq] at h
  obtain ⟨hlow, hhigh⟩ := h
  have hvalid : (PyStr.code p).isValidChar := Or.inl (by omega)
  have hcode : (Char.ofNat (PyStr.code p)).toNat = PyStr.code p := by
    rw [Char.toNat_ofNat, if_pos hvalid]
  simp only [PyText.isAsciiDigit, Bool.and_eq_true, decide_eq_true_eq, Char.le_def, UInt32.le_iff_toNat_le]
  change 48 ≤ (Char.ofNat (PyStr.code p)).toNat ∧ (Char.ofNat (PyStr.code p)).toNat ≤ 57
  rw [hcode]
  exact ⟨hlow, hhigh⟩

lemma digits_whole (s : PyStr) : ∀ p ∈ whole s, isDigit p = true := by
  cases s with
  | nil => exact List.forall_mem_nil _
  | cons p s =>
    rw [whole]
    split_ifs with hzero
    · subst hzero
      decide
    · exact fun q hq => List.mem_takeWhile_imp hq

/-- A number is no longer than the digits that it is read from. -/
lemma length_number {ds : PyStr} (hne : ds ≠ []) (h : ∀ p ∈ ds, isDigit p = true) :
    (toString (Nat.ofDigitChars 10 (chars ds) 0)).length ≤ ds.length := by
  have hdigits : Timestamps.Digits (chars ds) := by
    refine List.all_eq_true.mpr fun c hc => ?_
    obtain ⟨p, hp, rfl⟩ := List.mem_map.mp hc
    exact digit_char (h p hp)
  have hlt := Timestamps.value_lt hdigits
  have hlen : (chars ds).length = ds.length := List.length_map _
  rw [← String.length_toList, Data.toList_num, Nat.length_toDigits_le_iff (by decide) (List.length_pos_iff.mpr hne), ← hlen]
  exact hlt

lemma proper_number (hpy : Rereading py) {s : PyStr} {j : Json} {r : PyStr} (h : scanNumber py s = .ok (j, r)) :
    proper py j ∧ depth j = 0 := by
  have hfloat : ∀ t, j = .float t → Rereads py t := by
    rintro t rfl
    exact hpy s t r h
  unfold scanNumber at h
  dsimp only at h
  generalize (s.take 1).filter (fun p => decide (p = .scalar '-')) = minus at h
  have hdigits := digits_whole (s.drop minus.length)
  generalize whole (s.drop minus.length) = digits at h hdigits
  by_cases hne : digits = []
  · rw [if_pos hne] at h
    cases h
  rw [if_neg hne] at h
  have hle := length_number hne hdigits
  generalize Nat.ofDigitChars 10 (chars digits) 0 = n at h hle
  split_ifs at h with hint hlong hminus
  · obtain ⟨rfl, -⟩ := Prod.mk.inj (Except.ok.inj h)
    exact ⟨hle.trans (Nat.not_lt.mp hlong), rfl⟩
  · obtain ⟨rfl, -⟩ := Prod.mk.inj (Except.ok.inj h)
    exact ⟨(congrArg (fun k => (toString k).length) (Int.natAbs_neg n)).trans_le (hle.trans (Nat.not_lt.mp hlong)), rfl⟩
  · obtain ⟨rfl, -⟩ := Prod.mk.inj (Except.ok.inj h)
    exact ⟨hfloat _ rfl, rfl⟩

lemma word_cases : ∀ w ∈ words, w.2 = .null ∨ (∃ b, w.2 = .bool b) ∨ w.2 = .float w.1.toList ∧
    ∃ c cs, w.1.toList = c :: cs ∧ c ∉ [' ', '\t', '\n', '\r', ']', '}', '\ufeff'] := by
  intro w hw
  simp only [words, List.mem_cons, List.not_mem_nil, or_false] at hw
  rcases hw with rfl | rfl | rfl | rfl | rfl | rfl
  · exact .inl rfl
  · exact .inr (.inl ⟨_, rfl⟩)
  · exact .inr (.inl ⟨_, rfl⟩)
  all_goals exact .inr (.inr ⟨rfl, _, _, rfl, by decide⟩)

lemma proper_word {s : PyStr} {j : Json} {r : PyStr} (h : scanWord s = some (j, r)) : proper py j ∧ depth j = 0 := by
  obtain ⟨w, hw, hif⟩ := List.exists_of_findSome?_eq_some h
  split_ifs at hif
  obtain ⟨rfl, -⟩ := Prod.mk.inj (Option.some.inj hif)
  rcases word_cases w hw with hnull | ⟨b, hbool⟩ | ⟨hfloat, hhead⟩
  · rw [hnull]
    exact ⟨trivial, rfl⟩
  · rw [hbool]
    exact ⟨trivial, rfl⟩
  · have hreads : Rereads py w.1.toList := by
      refine ⟨hhead, fun steps room r _ => ?_⟩
      rw [← hfloat]
      exact scanValue_word py steps room hw r
    rw [hfloat]
    exact ⟨hreads, rfl⟩

/-! ### Values -/

lemma keyed_foldl {V : Type} (pairs : List (PyStr × V)) {d : Dict PyStr V} (h : (d.map Prod.fst).Nodup) :
    ((pairs.foldl (fun d p => Dict.set d p.1 p.2) d).map Prod.fst).Nodup := by
  induction pairs generalizing d with
  | nil => exact h
  | cons p pairs ih => exact ih (Dict.keyed_set h p.1 p.2)

/-- A dict holds what was given for it, and no key twice. -/
lemma proper_ofPairs {ms : List (PyStr × Json)} {room : ℕ} (h : properMembers py ms ∧ depthMembers ms ≤ room) :
    proper py (.obj (Dict.ofPairs ms)) ∧ depth (.obj (Dict.ofPairs ms)) ≤ room + 1 := by
  obtain ⟨hproper, hdepth⟩ := h
  refine ⟨⟨keyed_foldl ms List.nodup_nil, properMembers_iff.mpr fun m hm => ?_⟩, Nat.succ_le_succ (depthMembers_le.mpr fun m hm => ?_)⟩
  · exact properMembers_iff.mp hproper m (Dict.mem_ofPairs hm)
  · exact depthMembers_le.mp hdepth m (Dict.mem_ofPairs hm)

lemma scan_proper (hpy : Rereading py) (steps : ℕ) :
    (∀ room s j r, scanValue py steps room s = .ok (j, r) → proper py j ∧ depth j ≤ room) ∧
    (∀ room s js r, scanItems py steps room s = .ok (js, r) → properItems py js ∧ depthItems js ≤ room) ∧
    (∀ room s ms r, scanMembers py steps room s = .ok (ms, r) → properMembers py ms ∧ depthMembers ms ≤ room) := by
  induction steps with
  | zero =>
    refine ⟨fun room s j r h => ?_, fun room s js r h => ?_, fun room s ms r h => ?_⟩
    · rw [scanValue.eq_def] at h
      cases h
    · rw [scanItems] at h
      cases h
    · rw [scanMembers] at h
      cases h
  | succ steps ih =>
    obtain ⟨hvalue, hitems, hmembers⟩ := ih
    refine ⟨fun room s j r h => ?_, fun room s js r h => ?_, fun room s ms r h => ?_⟩
    · rw [scanValue.eq_def] at h
      cases s with
      | nil => cases h
      | cons p s =>
        simp only at h
        by_cases hq : p = .scalar '"'
        · rw [if_pos hq] at h
          obtain ⟨k, -, hk⟩ := Data.map_ok h
          obtain ⟨rfl, -⟩ := Prod.mk.inj hk
          exact ⟨trivial, Nat.zero_le _⟩
        rw [if_neg hq] at h
        by_cases ho : p = .scalar '{'
        · rw [if_pos ho] at h
          cases room with
          | zero => cases h
          | succ room =>
            simp only at h
            split_ifs at h
            · obtain ⟨rfl, -⟩ := Prod.mk.inj (Except.ok.inj h)
              exact ⟨⟨List.nodup_nil, trivial⟩, Nat.succ_le_succ (Nat.zero_le _)⟩
            · obtain ⟨m, hm, hj⟩ := Data.map_ok h
              obtain ⟨rfl, -⟩ := Prod.mk.inj hj
              exact proper_ofPairs (hmembers _ _ _ _ hm)
        rw [if_neg ho] at h
        by_cases ha : p = .scalar '['
        · rw [if_pos ha] at h
          cases room with
          | zero => cases h
          | succ room =>
            simp only at h
            split_ifs at h
            · obtain ⟨rfl, -⟩ := Prod.mk.inj (Except.ok.inj h)
              exact ⟨trivial, Nat.succ_le_succ (Nat.zero_le _)⟩
            · obtain ⟨m, hm, hj⟩ := Data.map_ok h
              obtain ⟨rfl, -⟩ := Prod.mk.inj hj
              obtain ⟨hproper, hdepth⟩ := hitems _ _ _ _ hm
              exact ⟨hproper, Nat.succ_le_succ hdepth⟩
        rw [if_neg ha] at h
        cases hword : scanWord (p :: s) with
        | some w =>
          rw [hword] at h
          obtain rfl := Except.ok.inj h
          obtain ⟨hproper, hdepth⟩ := proper_word hword
          exact ⟨hproper, hdepth ▸ Nat.zero_le _⟩
        | none =>
          rw [hword] at h
          obtain ⟨hproper, hdepth⟩ := proper_number hpy h
          exact ⟨hproper, hdepth ▸ Nat.zero_le _⟩
    · rw [scanItems] at h
      obtain ⟨v, hv, h⟩ := Data.bind_ok h
      obtain ⟨hproper, hdepth⟩ := hvalue _ _ _ _ hv
      simp only [bind, Except.bind, throw, throwThe, MonadExceptOf.throw, ne_eq, ite_not, pure, Except.pure] at h
      split_ifs at h
      · obtain ⟨rfl, -⟩ := Prod.mk.inj (Except.ok.inj h)
        exact ⟨⟨hproper, trivial⟩, Nat.max_le.mpr ⟨hdepth, Nat.zero_le _⟩⟩
      · obtain ⟨vs, hvs, h⟩ := Data.bind_ok h
        obtain ⟨rfl, -⟩ := Prod.mk.inj (Except.ok.inj h)
        obtain ⟨hproper', hdepth'⟩ := hitems _ _ _ _ hvs
        exact ⟨⟨hproper, hproper'⟩, Nat.max_le.mpr ⟨hdepth, hdepth'⟩⟩
    · rw [scanMembers] at h
      simp only [throw, throwThe, MonadExceptOf.throw, ne_eq, ite_not, pure, Except.pure] at h
      split_ifs at h
      · obtain ⟨k, -, h⟩ := Data.bind_ok h
        split_ifs at h
        · obtain ⟨v, hv, h⟩ := Data.bind_ok h
          obtain ⟨hproper, hdepth⟩ := hvalue _ _ _ _ hv
          split_ifs at h
          · obtain ⟨rfl, -⟩ := Prod.mk.inj (Except.ok.inj h)
            exact ⟨⟨hproper, trivial⟩, Nat.max_le.mpr ⟨hdepth, Nat.zero_le _⟩⟩
          · obtain ⟨vs, hvs, h⟩ := Data.bind_ok h
            obtain ⟨rfl, -⟩ := Prod.mk.inj (Except.ok.inj h)
            obtain ⟨hproper', hdepth'⟩ := hmembers _ _ _ _ hvs
            exact ⟨⟨hproper, hproper'⟩, Nat.max_le.mpr ⟨hdepth, hdepth'⟩⟩
          · cases h
        · cases h
      · cases h

theorem loads_proper (hpy : Rereading py) {s : PyStr} {j : Json} (h : loads py s = .ok j) :
    proper py j ∧ depth j ≤ py.loadsNesting := by
  unfold loads at h
  simp only [throw, throwThe, MonadExceptOf.throw, ne_eq, ite_not, pure, Except.pure] at h
  split_ifs at h
  · cases h
  · obtain ⟨v, hv, h⟩ := Data.bind_ok h
    split_ifs at h
    · obtain rfl := Except.ok.inj h
      exact (scan_proper hpy _).1 _ _ _ _ hv
    · cases h

end ContinuityLedger.Foundations.Json
