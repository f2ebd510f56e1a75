import ContinuityLedger.Foundations.Delimited
import ContinuityLedger.Foundations.PyStr

/-! The pieces of a text, the last first, read backwards in blocks of one size; and lines that are each ended by one mark: what a file
of them is split into, and what a window at its end shows of the last. -/

namespace ContinuityLedger.Foundations.ReverseLines

variable {α : Type*} [DecidableEq α]

def whole (piece : List α) : Bool := !piece.isEmpty

/-- The pieces in front of `pos`, where `carry` is the start of the text from there on. -/
def readBack (c : α) (chunk : ℕ) (text : List α) : ℕ → ℕ → List α → List (List α)
  | 0, _, carry => [carry].filter whole
  | fuel + 1, pos, carry =>
    if pos = 0 then [carry].filter whole
    else
      let step := min chunk pos
      let parts := ((text.take pos).drop (pos - step) ++ carry).splitOn c
      parts.tail.reverse.filter whole ++ readBack c chunk text fuel (pos - step) (parts.headD [])

/-- The first piece of a text, and the pieces behind it. -/
lemma splitOn_cases (c : α) (ys : List α) : ∃ first, c ∉ first ∧
    (ys = first ∧ ys.splitOn c = [first] ∨ ∃ rest, ys = first ++ c :: rest ∧ ys.splitOn c = first :: rest.splitOn c) := by
  by_cases h : c ∈ ys
  · obtain ⟨first, rest, rfl, hfirst⟩ := List.eq_append_cons_of_mem h
    refine ⟨first, hfirst, Or.inr ⟨rest, rfl, ?_⟩⟩
    rw [List.splitOn_append_cons_self, List.splitOn_eq_singleton hfirst]
    rfl
  · exact ⟨ys, h, Or.inl ⟨rfl, List.splitOn_eq_singleton h⟩⟩

/-- A text in front of another joins its first piece. -/
lemma splitOn_append (c : α) (xs ys : List α) :
    (xs ++ ys).splitOn c = (xs ++ (ys.splitOn c).headD []).splitOn c ++ (ys.splitOn c).tail := by
  obtain ⟨first, -, ⟨rfl, hsplit⟩ | ⟨rest, rfl, hsplit⟩⟩ := splitOn_cases c ys
  · rw [hsplit]
    simp
  · rw [hsplit, ← List.append_assoc, List.splitOn_append_cons_self]
    simp

/-- Reading backwards gives the pieces backwards. -/
lemma readBack_eq (c : α) {chunk : ℕ} (hchunk : 0 < chunk) (text : List α) {fuel pos : ℕ} (hfuel : pos ≤ fuel)
    {carry : List α} (hcarry : c ∉ carry) :
    readBack c chunk text fuel pos carry = ((text.take pos ++ carry).splitOn c).reverse.filter whole := by
  induction fuel generalizing pos carry with
  | zero =>
    obtain rfl := Nat.le_zero.mp hfuel
    rw [readBack, List.take_zero, List.nil_append, List.splitOn_eq_singleton hcarry]
    rfl
  | succ fuel ih =>
    rw [readBack]
    split_ifs with hpos
    · rw [hpos, List.take_zero, List.nil_append, List.splitOn_eq_singleton hcarry]
      rfl
    · set step := min chunk pos with hstep
      set parts := ((text.take pos).drop (pos - step) ++ carry).splitOn c with hparts
      have hfirst : c ∉ parts.headD [] := by
        obtain ⟨first, hfree, ⟨-, hsplit⟩ | ⟨rest, -, hsplit⟩⟩ := splitOn_cases c ((text.take pos).drop (pos - step) ++ carry)
        · rwa [hparts, hsplit]
        · rwa [hparts, hsplit]
      have hcut : text.take pos = text.take (pos - step) ++ (text.take pos).drop (pos - step) := by
        conv_lhs => rw [← List.take_append_drop (pos - step) (text.take pos), List.take_take, Nat.min_eq_left (Nat.sub_le pos step)]
      have hsplit := splitOn_append c (text.take (pos - step)) ((text.take pos).drop (pos - step) ++ carry)
      rw [← hparts, ← List.append_assoc, ← hcut] at hsplit
      dsimp only
      rw [ih (by omega) hfirst, hsplit, List.reverse_append, List.filter_append]

end ContinuityLedger.Foundations.ReverseLines

namespace ContinuityLedger.Foundations.ByteLines

variable {α : Type*}

def ended (c : α) (ls : List (List α)) : List α := ls.flatMap (· ++ [c])

/-- The last `size` of a text. -/
def window (size : ℕ) (text : List α) : List α := text.drop (text.length - min text.length size)

@[simp] lemma ended_nil (c : α) : ended c [] = [] := rfl

@[simp] lemma ended_cons (c : α) (l : List α) (ls : List (List α)) : ended c (l :: ls) = l ++ c :: ended c ls := by
  simp [ended]

@[simp] lemma ended_append (c : α) (ls ms : List (List α)) : ended c (ls ++ ms) = ended c ls ++ ended c ms :=
  List.flatMap_append

lemma splitOn_ended [DecidableEq α] {c : α} {ls : List (List α)} (h : ∀ l ∈ ls, c ∉ l) : (ended c ls).splitOn c = ls ++ [[]] := by
  induction ls with
  | nil => rfl
  | cons l ls ih =>
    obtain ⟨hl, hls⟩ := List.forall_mem_cons.mp h
    rw [ended_cons, List.splitOn_append_cons_self, List.splitOn_eq_singleton hl, ih hls]
    rfl

/-- Behind some lines comes the last one whole. -/
lemma splitOn_last [DecidableEq α] {c : α} {l : List α} (h : c ∉ l) {front : List α} (hfront : ∀ x ∈ front.getLast?, x = c) :
    ∃ pieces, (front ++ (l ++ [c])).splitOn c = pieces ++ [l, []] := by
  have hl : (l ++ [c]).splitOn c = [l, []] := by
    rw [List.splitOn_append_cons_self, List.splitOn_eq_singleton h]
    rfl
  rcases List.eq_nil_or_concat front with rfl | ⟨init, x, rfl⟩
  · exact ⟨[], hl⟩
  · obtain rfl : x = c := hfront x (by simp)
    refine ⟨init.splitOn x, ?_⟩
    rw [List.concat_eq_append, List.append_assoc, List.singleton_append, List.splitOn_append_cons_self, hl]

lemma ended_getLast? (c : α) (ls : List (List α)) : ∀ x ∈ (ended c ls).getLast?, x = c := by
  intro x hx
  rcases List.eq_nil_or_concat ls with rfl | ⟨init, l, rfl⟩
  · cases hx
  · rw [List.concat_eq_append, ended_append, ended_cons, ended_nil, ← List.append_assoc, List.getLast?_append] at hx
    simpa [eq_comm] using hx

/-- A window that has room for the last line shows it whole. -/
lemma window_fits [DecidableEq α] {c : α} {l : List α} (h : c ∉ l) (ls : List (List α)) {size : ℕ} (hsize : l.length < size) :
    ∃ pieces, (window size (ended c (ls ++ [l]))).splitOn c = pieces ++ [l, []] := by
  rw [window, ended_append, ended_cons, ended_nil, List.drop_append_of_le_length]
  · apply splitOn_last h
    intro x hx
    rw [List.getLast?_drop] at hx
    split_ifs at hx
    · cases hx
    · exact ended_getLast? c ls x hx
  · simp only [List.length_append, List.length_cons, List.length_nil]
    omega

/-- A window that has no room for the last line shows an end of it, and nothing else. -/
lemma window_cut {c : α} {l : List α} (ls : List (List α)) {size : ℕ} (hpos : 0 < size)
    (hsize : size ≤ l.length) : window size (ended c (ls ++ [l])) = l.drop (l.length + 1 - size) ++ [c] := by
  have hlen : (ended c (ls ++ [l])).length = (ended c ls).length + (l.length + 1) := by simp
  have hmin : min (ended c (ls ++ [l])).length size = size := by
    rw [hlen]
    omega
  have hdrop : (ended c ls).length + (l.length + 1) - size = (ended c ls).length + (l.length + 1 - size) := by omega
  rw [window, hmin, hlen, hdrop, ended_append, List.drop_length_add_append, ended_cons, ended_nil,
    List.drop_append_of_le_length (by omega)]

end ContinuityLedger.Foundations.ByteLines

namespace ContinuityLedger.Foundations.PyStr

/-- A line feed among the bytes is one among the characters. -/
lemma lineFeed_mem {cs : List Char} (h : 0x0a ∈ utf8Chars cs) : '\n' ∈ cs := by
  obtain ⟨c, hc, h⟩ := List.mem_flatMap.mp h
  obtain ⟨b, tail, rs, hs⟩ := shape c
  rw [hs.bytes] at h
  rcases List.mem_cons.mp h with rfl | h
  · have hrs : rs = [] := Option.some.inj (hs.ranges.symm.trans (by decide))
    have hfits := hs.fits
    rw [hrs, List.forall₂_nil_left_iff] at hfits
    have hassembles := hs.assembles
    rw [hfits] at hassembles
    rwa [← hassembles] at hc
  · exact absurd (hs.inner _ h) (by decide)

end ContinuityLedger.Foundations.PyStr
