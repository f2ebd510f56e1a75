import Mathlib.Data.List.Chain
import ContinuityLedger.Foundations.Delimited
import ContinuityLedger.Foundations.JsonRead
import ContinuityLedger.Foundations.JsonTorn

/-! The text of a flat object that lacks its start reads as no object with members: a brace in one of its strings opens
nothing that has a key and a colon. -/

namespace ContinuityLedger.Foundations.Json

open PyStr

/-- What a text would have to begin with, so as to be read as an object with members, leads nowhere. -/
def Dead (s : PyStr) : Prop :=
  ∀ rest, skip s = .scalar '{' :: rest → (skip rest).head? = some (.scalar '}') ∨
    ∀ py steps room, ∃ e, scanMembers py steps room (skip rest) = .error e

/-- Every end of the text is dead. -/
def Inert (s : PyStr) : Prop := ∀ t, t <:+ s → Dead t

lemma inert_nil : Inert [] := by
  intro t ht rest h
  rw [List.suffix_nil.mp ht] at h
  cases h

lemma dead_head {s : PyStr} (h : ∀ p ∈ s.head?, isSpace p = false ∧ p ≠ .scalar '{') : Dead s := by
  intro rest hskip
  cases s with
  | nil => cases hskip
  | cons p s =>
    obtain ⟨hp, hne⟩ := h p rfl
    rw [skip, List.dropWhile_cons_of_neg (by simp [hp])] at hskip
    exact absurd (List.cons.inj hskip).1 hne

/-- An end of two texts is an end of the second, or an end of the first with the second behind it. -/
lemma suffix_append_cases {t x y : PyStr} (h : t <:+ x ++ y) : t <:+ y ∨ ∃ u, u ≠ [] ∧ u <:+ x ∧ t = u ++ y := by
  obtain ⟨r, hr⟩ := h
  rcases List.append_eq_append_iff.mp hr with ⟨u, rfl, rfl⟩ | ⟨u, rfl, rfl⟩
  · by_cases hu : u = []
    · subst hu
      exact Or.inl (List.suffix_refl _)
    · exact Or.inr ⟨u, hu, List.suffix_append _ _, rfl⟩
  · exact Or.inl (List.suffix_append _ _)

/-- What has no brace keeps the ends dead. -/
lemma Inert.append {x y : PyStr} (hx : .scalar '{' ∉ x) (hy : Inert y) : Inert (x ++ y) := by
  intro t ht
  rcases suffix_append_cases ht with ht | ⟨u, -, hu, rfl⟩
  · exact hy t ht
  · intro rest hskip
    by_cases hblank : ∀ p ∈ u, isSpace p = true
    · rw [skip_blank hblank] at hskip
      exact hy y (List.suffix_refl _) rest hskip
    · have hdrop : ∃ p w, u.dropWhile isSpace = p :: w := by
        refine List.exists_cons_of_ne_nil fun hnil => hblank fun p hp => ?_
        exact List.dropWhile_eq_nil_iff.mp hnil p hp
      obtain ⟨p, w, hw⟩ := hdrop
      rw [skip, List.dropWhile_append, hw] at hskip
      simp only [List.isEmpty_cons, Bool.false_eq_true, if_false, List.cons_append] at hskip
      obtain rfl := (List.cons.inj hskip).1
      have hmem : .scalar '{' ∈ u := (List.dropWhile_sublist _).subset (hw ▸ List.mem_cons_self)
      exact absurd (hu.subset hmem) hx

/-! ### Strings -/

def quoteChar : PyChar := .scalar '"'

/-- Every quote has a backslash in front of it. -/
structure Guarded (s : PyStr) : Prop where
  first : s.head? ≠ some quoteChar
  inner : s.IsChain fun p q => q = quoteChar → p = .scalar '\\'

lemma guarded_append {s t : PyStr} (hs : Guarded s) (ht : Guarded t) : Guarded (s ++ t) := by
  refine ⟨?_, List.isChain_append.mpr ⟨hs.inner, ht.inner, fun p _ q hq he => ?_⟩⟩
  · cases s with
    | nil => exact ht.first
    | cons p s => exact hs.first
  · rw [he] at hq
    exact absurd hq ht.first

lemma guarded_free {s : PyStr} (h : quoteChar ∉ s) : Guarded s := by
  refine ⟨fun hs => h (List.mem_of_head? hs), ?_⟩
  induction s with
  | nil => exact .nil
  | cons p s ih =>
    have hs := List.not_mem_of_not_mem_cons h
    exact List.isChain_cons.mpr ⟨fun q hq he => absurd (he ▸ List.mem_of_head? hq) hs, ih hs⟩

lemma hexDigit_ne_quote : ∀ k < 16, Sha256.hexDigit k ≠ '"' := by decide

lemma guarded_escape (p : PyChar) : Guarded (escape p) := by
  cases p with
  | surrogate n => exact guarded_free (by simp [escape, quoteChar])
  | scalar c =>
    cases hshort : Data.shortEscape c with
    | some l =>
      rw [escape_short hshort]
      exact ⟨by simp [quoteChar], List.isChain_cons.mpr ⟨fun _ _ _ => rfl, .singleton _⟩⟩
    | none =>
      rw [escape_plain hshort]
      split_ifs with hc
      · refine guarded_free fun hmem => ?_
        rcases List.mem_append.mp hmem with hmem | hmem
        · exact absurd hmem (by decide)
        · rw [ofChars, List.map_cons, List.map_singleton, List.mem_pair] at hmem
          rcases hmem with h | h
          · exact hexDigit_ne_quote _ (by omega) (PyChar.scalar.inj h).symm
          · exact hexDigit_ne_quote _ (by omega) (PyChar.scalar.inj h).symm
      · refine guarded_free fun hmem => ?_
        obtain rfl := PyChar.scalar.inj (List.mem_singleton.mp hmem)
        cases hshort

lemma guarded_flatMap (s : PyStr) : Guarded (s.flatMap escape) := by
  induction s with
  | nil => exact ⟨by simp, by simp⟩
  | cons p s ih => exact guarded_append (guarded_escape p) ih

/-- What follows a string's closing quote in a text, read as the first key of an object. -/
def Closes (y : PyStr) : Prop := ∀ py steps room, ∃ e, scanMembers py steps room (quoteChar :: y) = .error e

lemma scanMembers_head {s : PyStr} (h : s.head? ≠ some quoteChar) (py : Python) (steps room : ℕ) :
    ∃ e, scanMembers py steps room s = .error e := by
  cases steps with
  | zero => exact ⟨.steps, by rw [scanMembers]⟩
  | succ steps => exact ⟨.value, by rw [scanMembers]; exact if_pos h⟩

lemma dropWhile_cases (s : PyStr) : (∀ p ∈ s, isSpace p = true) ∨
    ∃ gap p w, s = gap ++ p :: w ∧ (∀ q ∈ gap, isSpace q = true) ∧ isSpace p = false ∧ ∀ y, skip (s ++ y) = p :: (w ++ y) := by
  by_cases hblank : ∀ p ∈ s, isSpace p = true
  · exact Or.inl hblank
  · right
    obtain ⟨p, w, hw⟩ := List.exists_cons_of_ne_nil fun hnil => hblank (List.dropWhile_eq_nil_iff.mp hnil)
    have hp : isSpace p = false := by
      have hhead := List.head?_dropWhile_not isSpace s
      rw [hw] at hhead
      simpa using hhead
    refine ⟨s.takeWhile isSpace, p, w, ?_, fun q hq => List.mem_takeWhile_imp hq, hp, fun y => ?_⟩
    · rw [← hw, List.takeWhile_append_dropWhile]
    · rw [skip, List.dropWhile_append, hw]
      rfl

/-- A brace in a string opens nothing. -/
lemma inert_string {s y : PyStr} (hy : Inert y) (hclose : Closes y) : Inert (s.flatMap escape ++ quoteChar :: y) := by
  have hquote : skip (quoteChar :: y) = quoteChar :: y := Data.skip_scalar (by decide) y
  intro t ht
  rcases suffix_append_cases ht with ht | ⟨u, -, hu, rfl⟩
  · rcases List.suffix_cons_iff.mp ht with rfl | ht
    · refine dead_head fun p hp => ?_
      obtain rfl := Option.some.inj hp
      exact ⟨by decide, by decide⟩
    · exact hy t ht
  · intro rest hskip
    rcases dropWhile_cases u with hblank | ⟨gap, p, w, rfl, -, -, hw⟩
    · rw [skip_blank hblank, hquote] at hskip
      exact absurd (List.cons.inj hskip).1 (by decide)
    · rw [hw] at hskip
      obtain ⟨rfl, rfl⟩ := List.cons.inj hskip
      rcases dropWhile_cases w with hblank | ⟨gap', c, w', rfl, hgap', -, hw'⟩
      · rw [skip_blank hblank, hquote]
        exact Or.inr hclose
      · rw [hw']
        by_cases hc : c = .scalar '}'
        · exact Or.inl (by rw [hc]; rfl)
        · refine Or.inr (scanMembers_head fun hq => ?_)
          obtain rfl := Option.some.inj hq
          obtain ⟨pre, hpre⟩ := hu
          have hchain := (guarded_flatMap s).inner
          rw [← hpre, ← List.append_assoc, ← List.cons_append, ← List.append_assoc] at hchain
          have hlast := (List.isChain_append.mp hchain).2.2
          have hbrace : ∀ q ∈ .scalar '{' :: gap', q ≠ .scalar '\\' := by
            intro q hq
            rcases List.mem_cons.mp hq with rfl | hq
            · decide
            · rintro rfl
              exact absurd (hgap' _ hq) (by decide)
          have hne : PyChar.scalar '{' :: gap' ≠ [] := List.cons_ne_nil _ _
          have hmem : (.scalar '{' :: gap').getLast hne ∈ (pre ++ gap ++ .scalar '{' :: gap').getLast? := by
            rw [List.getLast?_append_of_ne_nil _ hne, List.getLast?_eq_some_getLast hne]
            exact rfl
          exact hbrace _ (List.getLast_mem hne) (hlast _ hmem quoteChar rfl rfl)

/-! ### Flat objects -/

/-- A key that is written as it stands, has no brace and does not begin as what follows a key. -/
def Word (k : PyStr) : Prop :=
  (∀ p ∈ k, escape p = [p] ∧ p ≠ .scalar '{') ∧ ∃ p s, k = p :: s ∧ isSpace p = false ∧ p ≠ .scalar ':'

/-- No list, no dict and no float. -/
def flat : Json → Bool
  | arr _ => false
  | obj _ => false
  | float _ => false
  | _ => true

/-- What follows a value in an object. -/
def following (ms : List (PyStr × Json)) : PyStr :=
  if ms.isEmpty then [.scalar '}'] else .scalar ',' :: renderedMembers [] ms

lemma Word.escaped {k : PyStr} (h : Word k) : k.flatMap escape = k := by
  have hall := h.1
  clear h
  induction k with
  | nil => rfl
  | cons p k ih =>
    rw [List.flatMap_cons, (hall p List.mem_cons_self).1, ih fun q hq => hall q (List.mem_cons_of_mem _ hq)]
    rfl

lemma Word.quoted {k : PyStr} (h : Word k) : quote k = quoteChar :: (k ++ [quoteChar]) := by
  rw [quote, h.escaped]
  rfl

lemma renderedMembers_cons (k : PyStr) (j : Json) (ms : List (PyStr × Json)) :
    renderedMembers [] ((k, j) :: ms) = quote k ++ .scalar ':' :: (rendered [] j ++ following ms) := by
  rw [renderedMembers]
  rfl

lemma scanMembers_quote (py : Python) (steps room : ℕ) {s : PyStr}
    (h : ∀ ts rest, scanTokens s = some (ts, rest) → (skip rest).head? ≠ some (.scalar ':')) :
    ∃ e, scanMembers py steps room (quoteChar :: s) = .error e := by
  cases steps with
  | zero => exact ⟨.steps, by rw [scanMembers]⟩
  | succ steps =>
    refine ⟨.value, ?_⟩
    rw [scanMembers]
    cases hs : scanTokens s with
    | none => simp [quoteChar, scanString, hs, bind, Except.bind]
    | some r =>
      obtain ⟨ts, rest⟩ := r
      have hcolon := h ts rest hs
      simp [quoteChar, scanString, hs, bind, Except.bind, pure, Except.pure, hcolon]
      rfl

lemma closes_following {ms : List (PyStr × Json)} (h : ∀ m ∈ ms, Word m.1) : Closes (following ms) := by
  intro py steps room
  refine scanMembers_quote py steps room fun ts rest hs => ?_
  cases ms with
  | nil => exact absurd hs (by simp [following, scanTokens, code])
  | cons m ms =>
    obtain ⟨k, j⟩ := m
    have hword : Word k := h (k, j) List.mem_cons_self
    obtain ⟨p, s, hk, hp, hne⟩ := hword.2
    have hcomma : ∀ x, scanTokens (.scalar ',' :: quoteChar :: x) = some ([.raw (.scalar ',')], x) := by
      intro x
      rw [scanTokens.eq_def]
      dsimp only
      rw [if_neg (by decide), if_neg (by decide), if_neg (by decide), scanTokens.eq_def]
      rfl
    rw [following, List.isEmpty_cons, if_neg (by decide), renderedMembers_cons, hword.quoted, List.cons_append, hcomma] at hs
    obtain ⟨-, rfl⟩ := Prod.mk.inj (Option.some.inj hs)
    rw [hk, List.cons_append, List.cons_append, skip, List.dropWhile_cons_of_neg (by simp [hp])]
    simpa using hne

lemma inert_members {ms : List (PyStr × Json)} (hw : ∀ m ∈ ms, Word m.1) (hf : ∀ m ∈ ms, flat m.2 = true) :
    Inert (renderedMembers [] ms) := by
  induction ms with
  | nil => exact Inert.append (x := [.scalar '}']) (by decide) inert_nil
  | cons m ms ih =>
    obtain ⟨k, j⟩ := m
    have hword : Word k := hw (k, j) List.mem_cons_self
    have hms := ih (fun m hm => hw m (List.mem_cons_of_mem _ hm)) fun m hm => hf m (List.mem_cons_of_mem _ hm)
    have hrest : Inert (following ms) := by
      cases ms with
      | nil => exact hms
      | cons m ms => exact Inert.append (x := [.scalar ',']) (by decide) hms
    have hvalue : Inert (rendered [] j ++ following ms) := by
      cases j with
      | null => exact hrest.append (by decide)
      | bool b => exact hrest.append (by cases b <;> decide)
      | int n =>
        refine hrest.append fun hmem => ?_
        obtain ⟨c, hc, hbrace⟩ := List.mem_map.mp hmem
        obtain rfl := PyChar.scalar.inj hbrace
        exact Delimited.free_int (by decide) (by decide) n hc
      | str s =>
        have hopen : rendered [] (str s) ++ following ms = [quoteChar] ++ (s.flatMap escape ++ quoteChar :: following ms) := by
          simp [rendered, quote, quoteChar]
        rw [hopen]
        exact (inert_string hrest (closes_following fun m hm => hw m (List.mem_cons_of_mem _ hm))).append (by decide)
      | _ => exact absurd (hf _ List.mem_cons_self) (by simp [flat])
    have hkey : .scalar '{' ∉ quote k ++ [.scalar ':'] := by
      rw [hword.quoted]
      intro hmem
      simp only [List.cons_append, List.mem_cons, List.mem_append, List.not_mem_nil, or_false] at hmem
      rcases hmem with hq | (hk | hq) | hq
      · exact absurd hq (by decide)
      · exact (hword.1 _ hk).2 rfl
      · exact absurd hq (by decide)
      · exact absurd hq (by decide)
    have hsplit : renderedMembers [] ((k, j) :: ms) = quote k ++ [.scalar ':'] ++ (rendered [] j ++ following ms) := by
      rw [renderedMembers_cons]
      simp
    rw [hsplit]
    exact hvalue.append hkey

lemma scanNumber_obj {py : Python} {s : PyStr} {ms : List (PyStr × Json)} {r : PyStr} : scanNumber py s ≠ .ok (.obj ms, r) := by
  unfold scanNumber
  dsimp only
  split_ifs <;> simp

lemma scanWord_obj {s : PyStr} {ms : List (PyStr × Json)} {r : PyStr} : scanWord s ≠ some (.obj ms, r) := by
  intro h
  obtain ⟨w, hw, hif⟩ := List.exists_of_findSome?_eq_some h
  split_ifs at hif
  have hobj := (Prod.mk.inj (Option.some.inj hif)).1
  revert hw
  simp only [words, List.mem_cons, List.not_mem_nil, or_false]
  rintro (rfl | rfl | rfl | rfl | rfl | rfl) <;> cases hobj

lemma scanValue_obj {py : Python} {steps room : ℕ} {s : PyStr} {ms : List (PyStr × Json)} {r : PyStr}
    (h : scanValue py steps room s = .ok (.obj ms, r)) : ∃ rest, s = .scalar '{' :: rest ∧
      (ms = [] ∨ (skip rest).head? ≠ some (.scalar '}') ∧
        ∃ steps' room' r', scanMembers py steps' room' (skip rest) = .ok r') := by
  cases steps with
  | zero =>
    rw [scanValue.eq_def] at h
    cases h
  | succ steps =>
    cases s with
    | nil =>
      rw [scanValue.eq_def] at h
      cases h
    | cons p s =>
      by_cases hquote : p = .scalar '"'
      · subst hquote
        rw [Data.scanValue_quote] at h
        obtain ⟨_, -, hr⟩ := Data.map_ok h
        cases hr
      by_cases hbrace : p = .scalar '{'
      · subst hbrace
        refine ⟨s, rfl, ?_⟩
        cases room with
        | zero => simp [scanValue.eq_def] at h
        | succ room =>
          rw [Data.scanValue_brace] at h
          split_ifs at h with hempty
          · left
            cases h
            rfl
          · right
            obtain ⟨r', hr', -⟩ := Data.map_ok h
            exact ⟨hempty, _, _, r', hr'⟩
      by_cases hbracket : p = .scalar '['
      · subst hbracket
        cases room with
        | zero => simp [scanValue.eq_def] at h
        | succ room =>
          rw [Data.scanValue_bracket] at h
          split_ifs at h
          · cases h
          · obtain ⟨_, -, hr⟩ := Data.map_ok h
            cases hr
      rw [scanValue.eq_def] at h
      simp only [if_neg hquote, if_neg hbrace, if_neg hbracket] at h
      split at h
      · next hword =>
        cases h
        exact absurd hword scanWord_obj
      · exact absurd h scanNumber_obj

lemma loads_dead {py : Python} {t : PyStr} (hdead : Dead t) {d : List (PyStr × Json)} (h : loads py t = .ok (.obj d)) : d = [] := by
  unfold loads at h
  split_ifs at h with hmark
  · cases h
  · obtain ⟨⟨j, rest⟩, hscan, h⟩ := Data.bind_ok h
    dsimp only at h
    split_ifs at h
    · cases h
    · cases h
      obtain ⟨rest', hskip, rfl | ⟨hempty, steps', room', r', hmembers⟩⟩ := scanValue_obj hscan
      · rfl
      · rcases hdead rest' hskip with hclose | hfail
        · exact absurd hclose hempty
        · obtain ⟨e, he⟩ := hfail py steps' room'
          rw [he] at hmembers
          cases hmembers

/-- Without its start the text of a flat object is read as no object with members. -/
theorem loads_suffix {py : Python} {ms : List (PyStr × Json)} (hw : ∀ m ∈ ms, Word m.1) (hf : ∀ m ∈ ms, flat m.2 = true)
    {t : PyStr} (ht : t <:+ renderedMembers [] ms) {d : List (PyStr × Json)} (h : loads py t = .ok (.obj d)) : d = [] :=
  loads_dead (inert_members hw hf t ht) h

end ContinuityLedger.Foundations.Json
