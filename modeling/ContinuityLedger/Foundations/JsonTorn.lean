import ContinuityLedger.Foundations.JsonAscii

/-! A text without numbers that is cut short is no JSON. -/

namespace ContinuityLedger.Foundations.Data

open Sha256

open Json (Token)

mutual

/-- No number stands in it. -/
def unnumbered : Data → Prop
  | num _ => False
  | arr items => unnumberedItems items
  | obj members => unnumberedMembers members
  | _ => True

def unnumberedItems : List Data → Prop
  | [] => True
  | d :: ds => unnumbered d ∧ unnumberedItems ds

def unnumberedMembers : List (String × Data) → Prop
  | [] => True
  | (_, d) :: ms => unnumbered d ∧ unnumberedMembers ms

end

/-- A cut falls before the first part's end or behind it. -/
lemma cut_append {α : Type} {p q a b : List α} (h : p ++ q = a ++ b) :
    (∃ q', q' ≠ [] ∧ p ++ q' = a) ∨ ∃ p', p = a ++ p' ∧ p' ++ q = b := by
  rcases List.append_eq_append_iff.mp h with ⟨a', rfl, rfl⟩ | ⟨p', rfl, rfl⟩
  · rcases eq_or_ne a' [] with rfl | hne
    · exact .inr ⟨[], by simp, rfl⟩
    · exact .inl ⟨a', hne, rfl⟩
  · exact .inr ⟨p', rfl, rfl⟩

lemma cut_cons {α : Type} {p q b : List α} {a : α} (h : p ++ q = a :: b) : p = [] ∨ ∃ p', p = a :: p' ∧ p' ++ q = b := by
  cases p with
  | nil => exact .inl rfl
  | cons c p =>
    rw [List.cons_append] at h
    obtain ⟨rfl, hrest⟩ := List.cons.inj h
    exact .inr ⟨p, rfl, hrest⟩

lemma cut_singleton {α : Type} {p q : List α} {a : α} (hq : q ≠ []) (h : p ++ q = [a]) : p = [] := by
  rcases cut_cons h with rfl | ⟨p', -, hp'⟩
  · rfl
  · exact absurd (List.append_eq_nil_iff.mp hp').2 hq

lemma skip_cut {p q cs : List Char} {c : Char} (hc : Json.isSpace (.scalar c) = false) (h : p ++ q = c :: cs) :
    Json.skip (PyStr.ofChars p) = PyStr.ofChars p := by
  rcases cut_cons h with rfl | ⟨p', rfl, -⟩
  · rfl
  · exact skip_scalar hc _

/-! ### Strings -/

lemma scanTokens_short {p : List Char} (hp : p.length < 4) : Json.scanTokens (PyStr.ofChars ('\\' :: 'u' :: p)) = none := by
  rw [Json.scanTokens.eq_def]
  rcases p with _ | ⟨a, _ | ⟨b, _ | ⟨c, _ | ⟨d, p⟩⟩⟩⟩
  · simp [PyStr.ofChars]
  · simp [PyStr.ofChars]
  · simp [PyStr.ofChars]
  · simp [PyStr.ofChars]
  · simp at hp
    omega

lemma torn_token {t : Token} {p q : List Char} (hq : q ≠ []) (h : p ++ q = tokenText t) :
    Json.scanTokens (PyStr.ofChars p) = none := by
  have hnil : Json.scanTokens (PyStr.ofChars []) = none := by rw [PyStr.ofChars, List.map_nil, Json.scanTokens.eq_def]
  have hslash : Json.scanTokens (PyStr.ofChars ['\\']) = none := by
    rw [Json.scanTokens.eq_def]
    simp [PyStr.ofChars]
  cases t with
  | raw r =>
    cases r with
    | surrogate n => exact absurd (List.append_eq_nil_iff.mp h).2 hq
    | scalar c =>
      cases hl : shortEscape c with
      | none =>
        simp only [tokenText, hl] at h
        rw [cut_singleton hq h, hnil]
      | some l =>
        simp only [tokenText, hl] at h
        rcases cut_cons h with rfl | ⟨p₁, rfl, h₁⟩
        · exact hnil
        · rw [cut_singleton hq h₁, hslash]
  | unit u =>
    simp only [tokenText] at h
    rcases cut_cons h with rfl | ⟨p₁, rfl, h₁⟩
    · exact hnil
    rcases cut_cons h₁ with rfl | ⟨p₂, rfl, h₂⟩
    · exact hslash
    · refine scanTokens_short ?_
      have hlen := congrArg List.length h₂
      have hpos := List.length_pos_iff.mpr hq
      simp only [List.length_append, List.length_cons, List.length_nil] at hlen
      omega

lemma torn_closed {ts : List Token} (ht : ∀ t ∈ ts, Good t) {p q : List Char} (hq : q ≠ []) (h : p ++ q = closed ts) :
    Json.scanTokens (PyStr.ofChars p) = none := by
  induction ts generalizing p with
  | nil => rw [cut_singleton hq h, PyStr.ofChars, List.map_nil, Json.scanTokens.eq_def]
  | cons t ts ih =>
    obtain ⟨hgood, hrest⟩ := List.forall_mem_cons.mp ht
    have hcons : closed (t :: ts) = tokenText t ++ closed ts := by simp [closed]
    rw [hcons] at h
    rcases cut_append h with ⟨q', hq', h'⟩ | ⟨p', rfl, h'⟩
    · exact torn_token hq' h'
    · rw [ofChars_append, scanTokens_token hgood, ih hrest h']
      rfl

lemma torn_string {s : String} {p q : List Char} (hq : q ≠ []) (h : p ++ q = closed (s.toList.flatMap tokens)) :
    Json.scanString (PyStr.ofChars p) = .error .value := by
  rw [Json.scanString, torn_closed (good_string s) hq h]

/-! ### Values -/

lemma map_ok {ε α β : Type} {f : α → β} {x : Except ε α} {b : β} (h : x.map f = .ok b) : ∃ a, x = .ok a ∧ f a = b := by
  cases x with
  | error e => cases h
  | ok a => exact ⟨a, rfl, Except.ok.inj h⟩

lemma bind_ok {ε α β : Type} {f : α → Except ε β} {x : Except ε α} {b : β} (h : x >>= f = .ok b) :
    ∃ a, x = .ok a ∧ f a = .ok b := by
  cases x with
  | error e => cases h
  | ok a => exact ⟨a, rfl, h⟩

/-- More steps change no value that was read. -/
lemma scan_succ (py : Python) (steps : ℕ) :
    (∀ room s r, Json.scanValue py steps room s = .ok r → Json.scanValue py (steps + 1) room s = .ok r) ∧
    (∀ room s r, Json.scanItems py steps room s = .ok r → Json.scanItems py (steps + 1) room s = .ok r) ∧
    (∀ room s r, Json.scanMembers py steps room s = .ok r → Json.scanMembers py (steps + 1) room s = .ok r) := by
  induction steps with
  | zero =>
    refine ⟨fun room s r h => ?_, fun room s r h => ?_, fun room s r h => ?_⟩
    · rw [Json.scanValue.eq_def] at h
      cases h
    · rw [Json.scanItems] at h
      cases h
    · rw [Json.scanMembers] at h
      cases h
  | succ steps ih =>
    obtain ⟨hvalue, hitems, hmembers⟩ := ih
    refine ⟨fun room s r h => ?_, fun room s r h => ?_, fun room s r h => ?_⟩
    · rw [Json.scanValue.eq_def] at h ⊢
      cases s with
      | nil => exact h
      | cons p s =>
        simp only at h ⊢
        by_cases hq : p = .scalar '"'
        · rwa [if_pos hq] at h ⊢
        rw [if_neg hq] at h ⊢
        by_cases ho : p = .scalar '{'
        · rw [if_pos ho] at h ⊢
          cases room with
          | zero => exact h
          | succ room =>
            simp only at h ⊢
            split_ifs at h ⊢
            · exact h
            · obtain ⟨m, hm, rfl⟩ := map_ok h
              rw [hmembers _ _ _ hm]
              rfl
        rw [if_neg ho] at h ⊢
        by_cases ha : p = .scalar '['
        · rw [if_pos ha] at h ⊢
          cases room with
          | zero => exact h
          | succ room =>
            simp only at h ⊢
            split_ifs at h ⊢
            · exact h
            · obtain ⟨m, hm, rfl⟩ := map_ok h
              rw [hitems _ _ _ hm]
              rfl
        · rwa [if_neg ha] at h ⊢
    · rw [Json.scanItems] at h ⊢
      obtain ⟨j, hj, h⟩ := bind_ok h
      rw [hvalue _ _ _ hj]
      simp only [bind, Except.bind, throw, throwThe, MonadExceptOf.throw, ne_eq, ite_not] at h ⊢
      split_ifs at h ⊢
      · exact h
      · obtain ⟨m, hm, h⟩ := bind_ok h
        rw [hitems _ _ _ hm]
        exact h
    · rw [Json.scanMembers] at h ⊢
      simp only [bind, Except.bind, throw, throwThe, MonadExceptOf.throw, ne_eq, ite_not] at h ⊢
      split_ifs at h ⊢
      obtain ⟨k, hk, h⟩ := bind_ok h
      rw [hk]
      simp only at h ⊢
      split_ifs at h ⊢
      obtain ⟨j, hj, h⟩ := bind_ok h
      rw [hvalue _ _ _ hj]
      simp only at h ⊢
      split_ifs at h ⊢
      · exact h
      · obtain ⟨m, hm, h⟩ := bind_ok h
        rw [hmembers _ _ _ hm]
        exact h

lemma scan_add (py : Python) {steps room : ℕ} {s : PyStr} {r : Json × PyStr} (k : ℕ)
    (h : Json.scanValue py steps room s = .ok r) : Json.scanValue py (steps + k) room s = .ok r := by
  induction k with
  | zero => exact h
  | succ k ih => exact (scan_succ py (steps + k)).1 _ _ _ ih

/-- In however many steps, a value's text is read as nothing but the value. -/
lemma scan_only (py : Python) {d : Data} {steps room : ℕ} {r : PyStr} (hp : d.proper) (hr : Ends r)
    (hd : Json.depth d.json ≤ room) {v : Json × PyStr}
    (h : Json.scanValue py steps room (PyStr.ofChars (ascii d) ++ r) = .ok v) : v = (d.json, r) := by
  have hmore := scan_add py ((ascii d).length + 1) h
  rw [scan_ascii py d hp hr (by omega) hd] at hmore
  exact (Except.ok.inj hmore).symm

lemma scanValue_nil (py : Python) (steps room : ℕ) : ∃ e, Json.scanValue py steps room [] = .error e := by
  cases steps with
  | zero => exact ⟨.steps, by rw [Json.scanValue.eq_def]⟩
  | succ steps => exact ⟨.value, by rw [Json.scanValue.eq_def]⟩

lemma scanItems_value {py : Python} {room : ℕ} {s : PyStr} (h : ∀ steps, ∃ e, Json.scanValue py steps room s = .error e)
    (steps : ℕ) : ∃ e, Json.scanItems py steps room s = .error e := by
  cases steps with
  | zero => exact ⟨.steps, by rw [Json.scanItems]⟩
  | succ steps =>
    obtain ⟨e, he⟩ := h steps
    exact ⟨e, by rw [Json.scanItems, he]; rfl⟩

lemma scanMembers_nil (py : Python) (steps room : ℕ) : ∃ e, Json.scanMembers py steps room [] = .error e := by
  cases steps with
  | zero => exact ⟨.steps, by rw [Json.scanMembers]⟩
  | succ steps => exact ⟨.value, by rw [Json.scanMembers]; rfl⟩

lemma torn_null (py : Python) (steps room : ℕ) {p q : List Char} (hq : q ≠ []) (h : p ++ q = ['n', 'u', 'l', 'l']) :
    ∃ e, Json.scanValue py steps room (PyStr.ofChars p) = .error e := by
  have hother : ∀ cs : List Char, Json.scanWord (PyStr.ofChars ('n' :: cs)) = none →
      ∃ e, Json.scanValue py steps room (PyStr.ofChars ('n' :: cs)) = .error e := by
    intro cs hword
    cases steps with
    | zero => exact ⟨.steps, by rw [Json.scanValue.eq_def]⟩
    | succ steps =>
      refine ⟨.value, ?_⟩
      rw [ofChars_cons, scanValue_other py steps room (by decide) (by decide) (by decide), ← ofChars_cons, hword]
      rfl
  rcases cut_cons h with rfl | ⟨p₁, rfl, h₁⟩
  · exact scanValue_nil py _ _
  refine hother p₁ ?_
  rcases cut_cons h₁ with rfl | ⟨p₂, rfl, h₂⟩
  · decide
  rcases cut_cons h₂ with rfl | ⟨p₃, rfl, h₃⟩
  · decide
  · rw [cut_singleton hq h₃]
    decide

/-- What follows a value in a list or a dict. -/
lemma ends_cut {c : Char} {p q cs : List Char} (hc : c ∈ [',', ']', '}', ':', '"']) (h : p ++ q = c :: cs) :
    Ends (PyStr.ofChars p) := by
  rcases cut_cons h with rfl | ⟨p', rfl, -⟩
  · exact ends_nil
  · exact ends_char hc

mutual

/-- A value's text that is cut short is refused. -/
lemma torn_ascii (py : Python) : (d : Data) → {room : ℕ} → {p q : List Char} → d.proper → d.unnumbered → q ≠ [] →
    p ++ q = ascii d → Json.depth d.json ≤ room → ∀ steps, ∃ e, Json.scanValue py steps room (PyStr.ofChars p) = .error e
  | _, _, _, _, _, _, _, _, _, 0 => ⟨.steps, by rw [Json.scanValue.eq_def]⟩
  | null, room, _, _, _, _, hq, h, _, steps + 1 => torn_null py _ _ hq h
  | str s, room, p, q, _, _, hq, h, _, steps + 1 => by
      rw [ascii, quoted] at h
      rcases cut_cons h with rfl | ⟨p', rfl, h'⟩
      · exact scanValue_nil py _ _
      · exact ⟨.value, by rw [ofChars_cons, scanValue_quote, torn_string hq h']; rfl⟩
  | arr [], room + 1, p, q, _, _, hq, h, _, steps + 1 => by
      rw [ascii, itemsText] at h
      rcases cut_cons h with rfl | ⟨p', rfl, h'⟩
      · exact scanValue_nil py _ _
      · obtain ⟨e, he⟩ := scanItems_value (fun k => scanValue_nil py k room) steps
        refine ⟨e, ?_⟩
        rw [cut_singleton hq h', ofChars_cons, scanValue_bracket]
        simp [PyStr.ofChars, Json.skip, he, Except.map]
  | arr (d :: ds), room + 1, p, q, hp, hu, hq, h, hd, steps + 1 => by
      rw [ascii] at h
      rcases cut_cons h with rfl | ⟨p', rfl, h'⟩
      · exact scanValue_nil py _ _
      · have hd : Json.depthItems (jsonItems (d :: ds)) ≤ room := by simpa [json, Json.depth] using hd
        obtain ⟨e, he⟩ := torn_items py (d :: ds) (by simp) hp hu hq h' hd steps
        obtain ⟨c, cs, hc, hspace, hne, -⟩ := ascii_head d
        have hfirst : p' ++ q = c :: (cs ++ (if ds.isEmpty then [']'] else ',' :: itemsText ds)) := by
          rw [h', itemsText, hc, List.cons_append]
        have hhead : (PyStr.ofChars p').head? ≠ some (.scalar ']') := by
          rcases cut_cons hfirst with rfl | ⟨p'', rfl, -⟩
          · simp [PyStr.ofChars]
          · simpa [PyStr.ofChars] using hne
        exact ⟨e, by rw [ofChars_cons, scanValue_bracket, skip_cut hspace hfirst, if_neg hhead, he]; rfl⟩
  | obj [], room + 1, p, q, _, _, hq, h, _, steps + 1 => by
      rw [ascii, membersText] at h
      rcases cut_cons h with rfl | ⟨p', rfl, h'⟩
      · exact scanValue_nil py _ _
      · obtain ⟨e, he⟩ := scanMembers_nil py steps room
        refine ⟨e, ?_⟩
        rw [cut_singleton hq h', ofChars_cons, scanValue_brace]
        simp [PyStr.ofChars, Json.skip, he, Except.map]
  | obj ((k, d) :: ms), room + 1, p, q, hp, hu, hq, h, hd, steps + 1 => by
      rw [ascii] at h
      rcases cut_cons h with rfl | ⟨p', rfl, h'⟩
      · exact scanValue_nil py _ _
      · have hd : Json.depthMembers (jsonMembers ((k, d) :: ms)) ≤ room := by simpa [json, Json.depth] using hd
        obtain ⟨e, he⟩ := torn_members py ((k, d) :: ms) (by simp) hp.2 hu hq h' hd steps
        have hfirst := h'
        rw [membersText, quoted, List.cons_append] at hfirst
        have hhead : (PyStr.ofChars p').head? ≠ some (.scalar '}') := by
          rcases cut_cons hfirst with rfl | ⟨p'', rfl, -⟩ <;> simp [PyStr.ofChars]
        exact ⟨e, by rw [ofChars_cons, scanValue_brace, skip_cut (by decide) hfirst, if_neg hhead, he]; rfl⟩

lemma torn_items (py : Python) : (ds : List Data) → ds ≠ [] → {room : ℕ} → {p q : List Char} → properItems ds →
    unnumberedItems ds → q ≠ [] → p ++ q = itemsText ds → Json.depthItems (jsonItems ds) ≤ room →
    ∀ steps, ∃ e, Json.scanItems py steps room (PyStr.ofChars p) = .error e
  | d :: ds, _, room, p, q, hp, hu, hq, h, hd, steps => by
      have hd : Json.depth d.json ≤ room ∧ Json.depthItems (jsonItems ds) ≤ room := by
        simpa [jsonItems, Json.depthItems] using hd
      rw [itemsText] at h
      rcases cut_append h with ⟨q', hq', h'⟩ | ⟨p', rfl, h'⟩
      · exact scanItems_value (torn_ascii py d hp.1 hu.1 hq' h' hd.1) steps
      cases steps with
      | zero => exact ⟨.steps, by rw [Json.scanItems]⟩
      | succ steps =>
        rw [ofChars_append, Json.scanItems]
        cases hvalue : Json.scanValue py steps room (PyStr.ofChars (ascii d) ++ PyStr.ofChars p') with
        | error e => exact ⟨e, rfl⟩
        | ok v =>
          cases ds with
          | nil =>
            obtain rfl := cut_singleton hq h'
            obtain rfl := scan_only py hp.1 ends_nil hd.1 hvalue
            exact ⟨.value, rfl⟩
          | cons f ds =>
            have h' : p' ++ q = ',' :: itemsText (f :: ds) := h'
            obtain rfl := scan_only py hp.1 (ends_cut (by decide) h') hd.1 hvalue
            rcases cut_cons h' with rfl | ⟨p'', rfl, h''⟩
            · exact ⟨.value, rfl⟩
            · obtain ⟨e, he⟩ := torn_items py (f :: ds) (by simp) hp.2 hu.2 hq h'' hd.2 steps
              obtain ⟨c, cs, hc, hspace, -⟩ := ascii_head f
              have hskip : Json.skip (PyStr.ofChars p'') = PyStr.ofChars p'' := by
                rw [itemsText, hc, List.cons_append] at h''
                exact skip_cut hspace h''
              refine ⟨e, ?_⟩
              simp only [bind, Except.bind, ofChars_cons, skip_scalar (by decide : Json.isSpace (.scalar ',') = false),
                List.head?_cons, Option.some.injEq, PyChar.scalar.injEq, if_neg (by decide : (',' : Char) ≠ ']'), List.tail_cons,
                hskip, he, ne_eq, not_true_eq_false, if_false]

lemma torn_members (py : Python) : (ms : List (String × Data)) → ms ≠ [] → {room : ℕ} → {p q : List Char} →
    properMembers ms → unnumberedMembers ms → q ≠ [] → p ++ q = membersText ms →
    Json.depthMembers (jsonMembers ms) ≤ room → ∀ steps, ∃ e, Json.scanMembers py steps room (PyStr.ofChars p) = .error e
  | (k, d) :: ms, _, room, p, q, hp, hu, hq, h, hd, steps => by
      have hd : Json.depth d.json ≤ room ∧ Json.depthMembers (jsonMembers ms) ≤ room := by
        simpa [jsonMembers, Json.depthMembers] using hd
      cases steps with
      | zero => exact ⟨.steps, by rw [Json.scanMembers]⟩
      | succ steps =>
      rw [membersText, quoted, List.cons_append] at h
      rcases cut_cons h with rfl | ⟨p₁, rfl, h₁⟩
      · exact scanMembers_nil py _ _
      rw [ofChars_cons, Json.scanMembers]
      simp only [List.head?_cons, ne_eq, not_true_eq_false, if_false, List.tail_cons]
      rcases cut_append h₁ with ⟨q', hq', h'⟩ | ⟨p₂, rfl, h₂⟩
      · exact ⟨.value, by rw [torn_string hq' h']; rfl⟩
      rw [ofChars_append, scanString_closed]
      simp only [bind, Except.bind]
      rcases cut_cons h₂ with rfl | ⟨p₃, rfl, h₃⟩
      · exact ⟨.value, rfl⟩
      simp only [ofChars_cons, skip_scalar (by decide : Json.isSpace (.scalar ':') = false), List.head?_cons, List.tail_cons,
        not_true_eq_false, if_false]
      obtain ⟨c, cs, hc, hspace, -⟩ := ascii_head d
      have hskip : Json.skip (PyStr.ofChars p₃) = PyStr.ofChars p₃ := by
        rw [hc, List.cons_append] at h₃
        exact skip_cut hspace h₃
      rw [hskip]
      rcases cut_append h₃ with ⟨q', hq', h'⟩ | ⟨p₄, rfl, h₄⟩
      · obtain ⟨e, he⟩ := torn_ascii py d hp.1 hu.1 hq' h' hd.1 steps
        exact ⟨e, by rw [he]⟩
      rw [ofChars_append]
      cases hvalue : Json.scanValue py steps room (PyStr.ofChars (ascii d) ++ PyStr.ofChars p₄) with
      | error e => exact ⟨e, rfl⟩
      | ok v =>
        cases ms with
        | nil =>
          obtain rfl := cut_singleton hq h₄
          obtain rfl := scan_only py hp.1 ends_nil hd.1 hvalue
          exact ⟨.value, rfl⟩
        | cons m ms =>
          have h₄ : p₄ ++ q = ',' :: membersText (m :: ms) := h₄
          obtain rfl := scan_only py hp.1 (ends_cut (by decide) h₄) hd.1 hvalue
          rcases cut_cons h₄ with rfl | ⟨p₅, rfl, h₅⟩
          · exact ⟨.value, rfl⟩
          · obtain ⟨e, he⟩ := torn_members py (m :: ms) (by simp) hp.2 hu.2 hq h₅ hd.2 steps
            have hskip : Json.skip (PyStr.ofChars p₅) = PyStr.ofChars p₅ := by
              rw [membersText, quoted, List.cons_append] at h₅
              exact skip_cut (by decide) h₅
            refine ⟨e, ?_⟩
            simp only [ofChars_cons, skip_scalar (by decide : Json.isSpace (.scalar ',') = false), List.head?_cons,
              Option.some.injEq, PyChar.scalar.injEq, if_neg (by decide : (',' : Char) ≠ '}'), List.tail_cons, hskip, he,
              not_true_eq_false, if_false]

end

/-- A text that is cut short is no JSON. -/
theorem loads_torn (py : Python) {d : Data} (hp : d.proper) (hu : d.unnumbered) (hd : Json.depth d.json ≤ py.loadsNesting)
    {p q : List Char} (hq : q ≠ []) (h : p ++ q = ascii d) : ∃ e, Json.loads py (PyStr.ofChars p) = .error e := by
  obtain ⟨c, cs, hc, hspace, -⟩ := ascii_head d
  have hskip : Json.skip (PyStr.ofChars p) = PyStr.ofChars p := skip_cut hspace (h.trans hc)
  obtain ⟨e, he⟩ := torn_ascii py d hp hu hq h hd (2 * (PyStr.ofChars p).length + 2)
  rw [Json.loads, hskip, he]
  split_ifs
  · exact ⟨.value, rfl⟩
  · exact ⟨e, rfl⟩

end ContinuityLedger.Foundations.Data
