import ContinuityLedger.Signatures.Base64

/-! The markers of a signing key's seed, and the forms in which a text can show it. Whatever stands around the seed, its base64
holds one of the markers, and so does one of its lines. -/

namespace ContinuityLedger.Backup

open Foundations Foundations.Sha256 Signatures

/-! ### The markers -/

structure Seed where
  bytes : Bytes
  length_eq : bytes.length = 32

def halves (text : List Char) : List (List Char) :=
  let mid := text.length / 2
  if 40 ≤ text.length then [text.take mid, text.drop mid] else [text]

/-- `.rstrip("=")`. -/
def rstripPadding (text : List Char) : List Char := (text.reverse.dropWhile (· = '=')).reverse

/-- What the seed alone decides of its base64, behind `pad` other bytes. -/
def aligned (seed : Seed) (pad dropFront : ℕ) : List Char :=
  let text := rstripPadding (base64Encode (List.replicate pad 0 ++ seed.bytes))
  (text.take (text.length - 2)).drop dropFront

def markers (seed : Seed) : List (List Char) :=
  [(0, 0), (1, 2), (2, 3)].flatMap (fun p => halves (aligned seed p.1 p.2)) ++ halves (hexChars seed.bytes)

/-! ### The forms -/

/-- The lines of a text that is broken at a width. -/
def wrap (width : ℕ) (text : List Char) : List (List Char) :=
  (List.range ((text.length + width - 1) / width)).map fun i => (text.drop (i * width)).take width

def pasted (text : List Char) : List (List (List Char)) := [[text], wrap 70 text]

/-- What `grep -F -f` finds. -/
def Shows (seed : Seed) (lines : List (List Char)) : Prop := ∃ line ∈ lines, ∃ m ∈ markers seed, m <:+: line

/-! ### Lines -/

lemma mem_wrap {width i : ℕ} {text : List Char} (hwidth : 0 < width) (h : i * width < text.length) :
    (text.drop (i * width)).take width ∈ wrap width text := by
  refine List.mem_map.mpr ⟨i, List.mem_range.mpr ?_, rfl⟩
  rw [Nat.lt_div_iff_mul_lt hwidth]
  omega

/-- A piece that no line break splits. -/
lemma infix_line {width i : ℕ} {front m back : List Char} (hwidth : 0 < width) (hm : m ≠ []) (hfrom : i * width ≤ front.length)
    (hto : front.length + m.length ≤ (i + 1) * width) : ∃ line ∈ wrap width (front ++ m ++ back), m <:+: line := by
  have hpos := List.length_pos_of_ne_nil hm
  have hin : i * width < (front ++ m ++ back).length := by
    rw [List.length_append, List.length_append]
    omega
  refine ⟨_, mem_wrap hwidth hin, ?_⟩
  obtain ⟨k, hk⟩ := Nat.exists_eq_add_of_le hfrom
  have hroom : k + m.length ≤ width := by
    rw [Nat.add_mul, Nat.one_mul] at hto
    omega
  rw [List.append_assoc, List.drop_append_of_le_length hfrom]
  have hfront : (front.drop (i * width)).length = k := by
    rw [List.length_drop]
    omega
  refine ⟨front.drop (i * width), back.take (width - k - m.length), ?_⟩
  rw [List.take_append, List.take_append, hfront, List.take_of_length_le (by omega : (front.drop (i * width)).length ≤ width),
    List.take_of_length_le (by omega : m.length ≤ width - k), List.append_assoc]

/-- Two pieces that are no longer together than a line are not both split. -/
lemma half_on_line {width : ℕ} {front a b back : List Char} (ha : a ≠ []) (hb : b ≠ []) (hlen : a.length + b.length ≤ width) :
    ∃ line ∈ wrap width (front ++ (a ++ b) ++ back), a <:+: line ∨ b <:+: line := by
  have hapos := List.length_pos_of_ne_nil ha
  have hwidth : 0 < width := by omega
  have hdiv := Nat.div_add_mod front.length width
  have hmod := Nat.mod_lt front.length hwidth
  rw [Nat.mul_comm] at hdiv
  have hnext : (front.length / width + 1) * width = front.length / width * width + width := by rw [Nat.add_mul, Nat.one_mul]
  by_cases hsplit : front.length + a.length ≤ (front.length / width + 1) * width
  · obtain ⟨line, hline, h⟩ := infix_line hwidth ha (by omega) hsplit
    refine ⟨line, ?_, Or.inl h⟩
    simpa only [List.append_assoc] using hline
  · have hfrom : (front.length / width + 1) * width ≤ (front ++ a).length := by
      rw [List.length_append]
      omega
    have hto : (front ++ a).length + b.length ≤ (front.length / width + 1 + 1) * width := by
      rw [List.length_append, Nat.add_mul _ 1, hnext]
      omega
    obtain ⟨line, hline, h⟩ := infix_line hwidth hb hfrom hto
    refine ⟨line, ?_, Or.inr h⟩
    simpa only [List.append_assoc] using hline

lemma halves_append {text : List Char} (h : 40 ≤ text.length) : ∃ a b, halves text = [a, b] ∧ a ++ b = text ∧ a ≠ [] ∧ b ≠ [] := by
  refine ⟨text.take (text.length / 2), text.drop (text.length / 2), by rw [halves]; exact if_pos h, List.take_append_drop _ _, ?_, ?_⟩
  · refine List.ne_nil_of_length_pos ?_
    rw [List.length_take]
    omega
  · refine List.ne_nil_of_length_pos ?_
    rw [List.length_drop]
    omega

/-- A text that holds what was cut in halves shows a half, broken into lines or not. -/
lemma shows_of_infix {seed : Seed} {core text : List Char} (hcore : ∀ m ∈ halves core, m ∈ markers seed)
    (hlen : 40 ≤ core.length ∧ core.length ≤ 70) (h : core <:+: text) : ∀ lines ∈ pasted text, Shows seed lines := by
  obtain ⟨a, b, hhalves, rfl, ha, hb⟩ := halves_append hlen.1
  obtain ⟨front, back, rfl⟩ := h
  rw [hhalves] at hcore
  have hmarker : a ∈ markers seed ∧ b ∈ markers seed := ⟨hcore a (by simp), hcore b (by simp)⟩
  intro lines hlines
  rcases List.mem_cons.mp hlines with rfl | hlines
  · refine ⟨_, List.mem_singleton_self _, a, hmarker.1, front, b ++ back, ?_⟩
    simp only [List.append_assoc]
  · obtain rfl := List.mem_singleton.mp hlines
    rw [List.length_append] at hlen
    obtain ⟨line, hline, hinfix⟩ := half_on_line ha hb hlen.2
    rcases hinfix with hinfix | hinfix
    · exact ⟨line, hline, a, hmarker.1, hinfix⟩
    · exact ⟨line, hline, b, hmarker.2, hinfix⟩

/-! ### Base64 at each alignment -/

lemma base64Digits_append {front : Bytes} (h : 3 ∣ front.length) (rest : Bytes) :
    base64Digits (front ++ rest) = base64Digits front ++ base64Digits rest := by
  induction front using base64Digits.induct with
  | case1 a b c front ih =>
    have hfront : 3 ∣ front.length := by
      rw [List.length_cons, List.length_cons, List.length_cons] at h
      omega
    simp only [List.cons_append, base64Digits, ih hfront]
  | case2 a b => exact absurd h (by simp)
  | case3 a => exact absurd h (by simp)
  | case4 => rfl

lemma base64Digits_ne_nil {bs : Bytes} (h : bs ≠ []) : base64Digits bs ≠ [] := by
  rcases bs with _ | ⟨a, _ | ⟨b, _ | ⟨c, rest⟩⟩⟩
  · exact absurd rfl h
  · simp [base64Digits]
  · simp [base64Digits]
  · simp [base64Digits]

/-- Only the last digit depends on what follows. -/
lemma base64Digits_prefix (bs rest : Bytes) : (base64Digits bs).dropLast <+: base64Digits (bs ++ rest) := by
  induction bs using base64Digits.induct with
  | case1 a b c bs ih =>
    simp only [List.cons_append, base64Digits]
    rcases eq_or_ne bs [] with rfl | hbs
    · exact ⟨base64Char ((a.toNat * 65536 + b.toNat * 256 + c.toNat) % 64) :: base64Digits rest, rfl⟩
    · obtain ⟨d, ds, hds⟩ := List.exists_cons_of_ne_nil (base64Digits_ne_nil hbs)
      rw [hds, List.dropLast_cons_cons, List.dropLast_cons_cons, List.dropLast_cons_cons, List.dropLast_cons_cons, ← hds]
      simpa using ih
  | case2 a b =>
    have ha := a.toNat_lt
    have hb := b.toNat_lt
    rcases rest with _ | ⟨c, rest⟩
    · exact List.dropLast_prefix _
    · have hc := c.toNat_lt
      simp only [List.cons_append, List.nil_append, base64Digits, List.dropLast_cons_cons, List.dropLast_singleton]
      rw [show (a.toNat * 1024 + b.toNat * 4) / 4096 = (a.toNat * 65536 + b.toNat * 256 + c.toNat) / 262144 by omega,
        show (a.toNat * 1024 + b.toNat * 4) / 64 % 64 = (a.toNat * 65536 + b.toNat * 256 + c.toNat) / 4096 % 64 by omega]
      exact ⟨_, rfl⟩
  | case3 a =>
    have ha := a.toNat_lt
    rcases rest with _ | ⟨b, _ | ⟨c, rest⟩⟩
    · exact List.dropLast_prefix _
    · have hb := b.toNat_lt
      simp only [List.cons_append, List.nil_append, base64Digits, List.dropLast_cons_cons, List.dropLast_singleton]
      rw [show a.toNat / 4 = (a.toNat * 1024 + b.toNat * 4) / 4096 by omega]
      exact ⟨_, rfl⟩
    · have hb := b.toNat_lt
      have hc := c.toNat_lt
      simp only [List.cons_append, List.nil_append, base64Digits, List.dropLast_cons_cons, List.dropLast_singleton]
      rw [show a.toNat / 4 = (a.toNat * 65536 + b.toNat * 256 + c.toNat) / 262144 by omega]
      exact ⟨_, rfl⟩
  | case4 => exact List.nil_prefix

/-- The digits that depend on the bytes in front of the seed. -/
def dropFront : ℕ → ℕ
  | 0 => 0
  | 1 => 2
  | _ => 3

/-- Behind these digits it does not matter which bytes stand in front. -/
lemma drop_front {front front' bs : Bytes} (hlen : front.length = front'.length) (h : front.length < 3) (hbs : 2 ≤ bs.length) :
    (base64Digits (front ++ bs)).drop (dropFront front.length) = (base64Digits (front' ++ bs)).drop (dropFront front.length) := by
  rcases bs with _ | ⟨x, _ | ⟨y, bs⟩⟩
  · simp at hbs
  · simp at hbs
  · match front, front', hlen, h with
    | [], [], _, _ => rfl
    | [a], [a'], _, _ =>
      have hx := x.toNat_lt
      have hy := y.toNat_lt
      simp only [List.length_singleton, dropFront, List.cons_append, List.nil_append, base64Digits, List.drop_succ_cons, List.drop_zero]
      rw [show (a.toNat * 65536 + x.toNat * 256 + y.toNat) / 64 % 64 = (a'.toNat * 65536 + x.toNat * 256 + y.toNat) / 64 % 64 by omega,
        show (a.toNat * 65536 + x.toNat * 256 + y.toNat) % 64 = (a'.toNat * 65536 + x.toNat * 256 + y.toNat) % 64 by omega]
    | [a, b], [a', b'], _, _ =>
      have hx := x.toNat_lt
      simp only [List.length_cons, List.length_nil, dropFront, List.cons_append, List.nil_append, base64Digits, List.drop_succ_cons,
        List.drop_zero]
      rw [show (a.toNat * 65536 + b.toNat * 256 + x.toNat) % 64 = (a'.toNat * 65536 + b'.toNat * 256 + x.toNat) % 64 by omega]

lemma length_base64Digits (bs : Bytes) : (base64Digits bs).length = (bs.length * 4 + 2) / 3 := by
  induction bs using base64Digits.induct with
  | case1 a b c bs ih =>
    simp only [base64Digits, List.length_cons, ih]
    omega
  | case2 a b => simp [base64Digits]
  | case3 a => simp [base64Digits]
  | case4 => rfl

lemma rstrip_base64 (bs : Bytes) : rstripPadding (base64Encode bs) = base64Digits bs := by
  have hpad : ∀ c ∈ (padding bs.length).reverse, decide (c = '=') = true := by
    intro c hc
    exact decide_eq_true (List.eq_of_mem_replicate (List.mem_reverse.mp hc))
  have hdigits : ∀ c ∈ (base64Digits bs).reverse, ¬ decide (c = '=') = true := by
    intro c hc heq
    have halphabet := base64Digits_alphabet bs c (List.mem_reverse.mp hc)
    rw [of_decide_eq_true heq] at halphabet
    exact absurd halphabet (by decide)
  rw [rstripPadding, base64Encode, List.reverse_append, List.dropWhile_append_of_pos hpad]
  cases hrev : (base64Digits bs).reverse with
  | nil =>
    rw [List.reverse_eq_nil_iff.mp hrev]
    rfl
  | cons c cs =>
    rw [List.dropWhile_cons, if_neg (hdigits c (hrev ▸ List.mem_cons_self)), ← hrev, List.reverse_reverse]

/-! ### What is pasted -/

variable (seed : Seed)

lemma aligned_eq (pad : ℕ) : aligned seed pad (dropFront pad) =
    ((base64Digits (List.replicate pad 0 ++ seed.bytes)).take
      ((base64Digits (List.replicate pad 0 ++ seed.bytes)).length - 2)).drop (dropFront pad) := by
  rw [aligned, rstrip_base64]

lemma length_aligned {pad : ℕ} (h : pad < 3) :
    40 ≤ (aligned seed pad (dropFront pad)).length ∧ (aligned seed pad (dropFront pad)).length ≤ 70 := by
  rw [aligned_eq, List.length_drop, List.length_take, length_base64Digits, List.length_append, List.length_replicate, seed.length_eq]
  interval_cases pad <;> decide

lemma markers_aligned {pad : ℕ} (h : pad < 3) : ∀ m ∈ halves (aligned seed pad (dropFront pad)), m ∈ markers seed := by
  intro m hm
  refine List.mem_append_left _ (List.mem_flatMap.mpr ⟨(pad, dropFront pad), ?_, hm⟩)
  interval_cases pad <;> decide

/-- The digits that the seed decides stand in the base64 of every string that holds it. -/
lemma aligned_inside (before after : Bytes) :
    aligned seed (before.length % 3) (dropFront (before.length % 3)) <:+: base64Encode (before ++ seed.bytes ++ after) := by
  obtain ⟨k, hk⟩ : ∃ k, before.length = 3 * k + before.length % 3 := ⟨before.length / 3, (Nat.div_add_mod _ 3).symm⟩
  have hpad : before.length % 3 < 3 := Nat.mod_lt _ (by decide)
  generalize before.length % 3 = pad at hk hpad
  have hfront : 3 ∣ (before.take (3 * k)).length := by
    rw [List.length_take, Nat.min_eq_left (by omega)]
    exact Nat.dvd_mul_right 3 k
  have hrest : (before.drop (3 * k)).length = pad := by
    rw [List.length_drop]
    omega
  have hdigits : base64Digits (before ++ seed.bytes ++ after) =
      base64Digits (before.take (3 * k)) ++ base64Digits (before.drop (3 * k) ++ (seed.bytes ++ after)) := by
    rw [← base64Digits_append hfront, ← List.append_assoc, List.take_append_drop, List.append_assoc]
  have hafter : (base64Digits (List.replicate pad 0 ++ seed.bytes)).dropLast <+:
      base64Digits (List.replicate pad 0 ++ (seed.bytes ++ after)) := by
    rw [← List.append_assoc]
    exact base64Digits_prefix _ _
  have hlen : (before.drop (3 * k)).length = (List.replicate pad (0 : UInt8)).length := by rw [hrest, List.length_replicate]
  have hlong : 2 ≤ (seed.bytes ++ after).length := by
    rw [List.length_append, seed.length_eq]
    omega
  have hdrop := drop_front hlen (by omega) hlong
  rw [hrest] at hdrop
  have hcore : aligned seed pad (dropFront pad) <+: (base64Digits (before.drop (3 * k) ++ (seed.bytes ++ after))).drop (dropFront pad) := by
    rw [aligned_eq, hdrop]
    refine List.IsPrefix.drop (List.IsPrefix.trans ?_ hafter) _
    rw [List.dropLast_eq_take]
    exact List.take_prefix_take_left (by omega)
  rw [base64Encode, hdigits]
  exact (hcore.isInfix.trans (List.drop_suffix _ _).isInfix).trans ⟨_, _, rfl⟩

theorem markers_cover (before after : Bytes) :
    (∀ lines ∈ pasted (base64Encode (before ++ seed.bytes ++ after)), Shows seed lines) ∧
      ∀ lines ∈ pasted (hexChars seed.bytes), Shows seed lines := by
  have hpad : before.length % 3 < 3 := Nat.mod_lt _ (by decide)
  constructor
  · exact shows_of_infix (markers_aligned seed hpad) (length_aligned seed hpad) (aligned_inside seed before after)
  · refine shows_of_infix (fun m hm => List.mem_append_right _ hm) ?_ (List.infix_rfl)
    rw [hexChars_length, seed.length_eq]
    decide

end ContinuityLedger.Backup
