import ContinuityLedger.Foundations.Borders
import ContinuityLedger.Records.Latest

/-! The score of a candidate of a search, and the bonus for the phrase: it is found where its words stand in a row. -/

namespace ContinuityLedger.Records.LedgerSearch

open Foundations.Borders

section Run

variable {α : Type} [DecidableEq α]

/-- `while k and item != run[k]: k = fail[k - 1]` in so many rounds; an index out of range raises. -/
def fallBack (run : List α) (fail : List ℕ) (item : α) : ℕ → ℕ → Option ℕ
  | 0, _ => none
  | rounds + 1, k =>
    if k = 0 then some 0
    else
      match run[k]? with
      | none => none
      | some next => if item = next then some k else fail[k - 1]?.bind (fallBack run fail item rounds)

/-- The table so far and its last entry, behind the round for `i`. -/
def failStep (run : List α) (s : List ℕ × ℕ) (i : ℕ) : Option (List ℕ × ℕ) := do
  let item ← run[i]?
  let k ← fallBack run s.1 item run.length s.2
  let next ← run[k]?
  let k := if item = next then k + 1 else k
  return (s.1.set i k, k)

def failTable (run : List α) : Option (List ℕ) :=
  ((List.range' 1 (run.length - 1)).foldlM (failStep run) (List.replicate run.length 0, 0)).map Prod.fst

def scanRun (run : List α) (fail : List ℕ) : ℕ → List α → Option Bool
  | _, [] => some false
  | k, item :: seq => do
    let k ← fallBack run fail item run.length k
    let next ← run[k]?
    if item = next then
      if k + 1 = run.length then some true else scanRun run fail (k + 1) seq
    else scanRun run fail k seq

/-- `_contains_run`; nothing where a loop does not end or an index is out of range. -/
def containsRun (seq run : List α) : Option Bool :=
  if run.length = 0 ∨ seq.length < run.length then some (run.length = 0)
  else (failTable run).bind fun fail => scanRun run fail 0 seq

/-! ### The loops -/

/-- The entries in front of `n` are the longest fronts that stand at the end of what is behind the first item. -/
def Filled (run : List α) (fail : List ℕ) (n : ℕ) : Prop :=
  ∀ i < n, ∃ k, fail[i]? = some k ∧ Longest run (run.take (i + 1)).tail k

variable {run text : List α} {fail : List ℕ} {item : α}

lemma fallBack_ends {rounds k : ℕ} (hrounds : k < rounds) (hfail : Filled run fail k) (h : Candidate run text item k) :
    ∃ k', fallBack run fail item rounds k = some k' ∧ Candidate run text item k' ∧ (k' = 0 ∨ run[k']? = some item) := by
  induction rounds generalizing k with
  | zero => omega
  | succ rounds ih =>
    rw [fallBack]
    split_ifs with hzero
    · subst hzero
      exact ⟨0, rfl, h, Or.inl rfl⟩
    · rw [List.getElem?_eq_getElem h.lt]
      dsimp only
      split_ifs with hitem
      · exact ⟨k, rfl, h, Or.inr ((List.getElem?_eq_getElem h.lt).trans (congrArg some hitem.symm))⟩
      · obtain ⟨next, hnext, hlongest⟩ := hfail (k - 1) (by omega)
        rw [Nat.sub_add_cancel (Nat.pos_of_ne_zero hzero)] at hlongest
        have hother : run[k]? ≠ some item := by
          rw [List.getElem?_eq_getElem h.lt]
          exact fun heq => hitem (Option.some.inj heq).symm
        obtain ⟨hlt, hcandidate⟩ := h.fall hother hlongest (Nat.pos_of_ne_zero hzero)
        rw [hnext]
        exact ih (by omega) (fun i hi => hfail i (by omega)) hcandidate

/-- One round of either `for` loop: what is found is the longest front behind one more item. -/
lemma fallBack_longest {k : ℕ} (hfail : Filled run fail k) (h : Longest run text k) (hk : k < run.length) (item : α) :
    ∃ k' next, fallBack run fail item run.length k = some k' ∧ run[k']? = some next ∧
      Longest run (text ++ [item]) (if item = next then k' + 1 else k') := by
  obtain ⟨k', hback, hcandidate, hlast⟩ := fallBack_ends hk hfail (h.candidate hk item)
  have hlt := hcandidate.lt
  refine ⟨k', run[k'], hback, List.getElem?_eq_getElem hlt, ?_⟩
  split_ifs with hitem
  · exact hcandidate.grow ((List.getElem?_eq_getElem hcandidate.lt).trans (congrArg some hitem.symm))
  · have hother : run[k']? ≠ some item := by
      rw [List.getElem?_eq_getElem hcandidate.lt]
      exact fun heq => hitem (Option.some.inj heq).symm
    obtain rfl := hlast.resolve_right hother
    exact hcandidate.none hother

/-- One round of the first loop fills one more entry. -/
lemma failStep_fills {i k : ℕ} (hpos : 0 < i) (hi : i < run.length) (hlen : fail.length = run.length) (hfail : Filled run fail i)
    (hlongest : Longest run (run.take i).tail k) : ∃ fail' k', failStep run (fail, k) i = some (fail', k') ∧
      fail'.length = run.length ∧ Filled run fail' (i + 1) ∧ Longest run (run.take (i + 1)).tail k' := by
  have hki : k < i := by
    have hle := hlongest.le_text
    rw [List.length_tail, List.length_take, Nat.min_eq_left hi.le] at hle
    omega
  have hbefore : Filled run fail k := fun j hj => hfail j (hj.trans hki)
  obtain ⟨k', next, hback, hnext, hgrown⟩ := fallBack_longest hbefore hlongest (hki.trans hi) run[i]
  rw [← tail_take_succ hpos hi] at hgrown
  generalize hm : (if run[i] = next then k' + 1 else k') = m at hgrown
  refine ⟨fail.set i m, m, ?_, List.length_set.trans hlen, ?_, hgrown⟩
  · simp only [failStep, List.getElem?_eq_getElem hi, hback, hnext, bind, Option.bind, pure, hm]
  · intro j hj
    rcases Nat.lt_succ_iff_lt_or_eq.mp hj with hlt | rfl
    · obtain ⟨entry, hentry, hlongest⟩ := hfail j hlt
      exact ⟨entry, by rw [List.getElem?_set_ne hlt.ne', hentry], hlongest⟩
    · exact ⟨m, List.getElem?_set_self (hlen ▸ hi), hgrown⟩

lemma failTable_filled (hrun : 0 < run.length) : ∃ fail, failTable run = some fail ∧ Filled run fail run.length := by
  have hloop : ∀ n i fail k, i + n = run.length → 0 < i → fail.length = run.length → Filled run fail i →
      Longest run (run.take i).tail k → ∃ fail' k', (List.range' i n).foldlM (failStep run) (fail, k) = some (fail', k') ∧
        Filled run fail' run.length := by
    intro n
    induction n with
    | zero =>
      intro i fail k hi _ _ hfail _
      exact ⟨fail, k, rfl, hi ▸ hfail⟩
    | succ n ih =>
      intro i fail k hi hpos hlen hfail hlongest
      obtain ⟨fail', k', hstep, hlen', hfail', hlongest'⟩ := failStep_fills hpos (by omega) hlen hfail hlongest
      rw [List.range'_succ, List.foldlM_cons, hstep]
      exact ih (i + 1) fail' k' (by omega) (Nat.succ_pos _) hlen' hfail' hlongest'
  have hone : (run.take 1).tail = [] := by cases run <;> rfl
  have hfirst : Filled run (List.replicate run.length 0) 1 := by
    intro i hi
    obtain rfl := Nat.lt_one_iff.mp hi
    exact ⟨0, List.getElem?_replicate_of_lt hrun, hone ▸ longest_nil run⟩
  obtain ⟨fail, k, hfold, hfilled⟩ := hloop (run.length - 1) 1 (List.replicate run.length 0) 0 (by omega) Nat.one_pos
    List.length_replicate hfirst (hone ▸ longest_nil run)
  exact ⟨fail, by rw [failTable, hfold]; rfl, hfilled⟩

/-- The second loop, behind a text in which the run has not been found. -/
lemma scanRun_eq (hfail : Filled run fail run.length) (seq : List α) {k : ℕ} (hk : k < run.length) (hlongest : Longest run text k)
    (hnot : ¬ run <:+: text) : scanRun run fail k seq = some (decide (run <:+: text ++ seq)) := by
  induction seq generalizing text k with
  | nil =>
    rw [scanRun, List.append_nil, decide_eq_false hnot]
  | cons item seq ih =>
    obtain ⟨k', next, hback, hnext, hgrown⟩ := fallBack_longest (fun i hi => hfail i (hi.trans hk)) hlongest hk item
    have hcons : text ++ item :: seq = text ++ [item] ++ seq := by simp
    have hoccurs : run <:+: text ++ [item] ↔ run <:+ text ++ [item] := by
      rw [List.infix_concat_iff]
      exact or_iff_left hnot
    rw [hcons]
    simp only [scanRun, hback, hnext, bind, Option.bind]
    split_ifs with hitem hwhole
    · rw [if_pos hitem] at hgrown
      have hfound : run <:+: text ++ [item] := hoccurs.mpr (hgrown.whole_iff.mpr hwhole)
      rw [decide_eq_true (hfound.trans (List.prefix_append _ _).isInfix)]
    · rw [if_pos hitem] at hgrown
      refine ih (lt_of_le_of_ne hgrown.le hwhole) hgrown fun hfound => hwhole ?_
      exact hgrown.whole_iff.mp (hoccurs.mp hfound)
    · rw [if_neg hitem] at hgrown
      have hlt : k' < run.length := (List.getElem?_eq_some_iff.mp hnext).1
      refine ih hlt hgrown fun hfound => ?_
      exact hlt.ne (hgrown.whole_iff.mp (hoccurs.mp hfound))

lemma containsRun_eq (seq run : List α) : containsRun seq run = some (decide (run <:+: seq)) := by
  unfold containsRun
  split_ifs with h
  · rcases h with hnil | hlong
    · obtain rfl := List.length_eq_zero_iff.mp hnil
      simp
    · have hnot : ¬ run <:+: seq := fun hoccurs => absurd hoccurs.length_le (by omega)
      have hne : run.length ≠ 0 := by omega
      simp [hnot, hne]
  · have hrun : 0 < run.length := by omega
    obtain ⟨fail, htable, hfilled⟩ := failTable_filled hrun
    have hnot : ¬ run <:+: [] := fun hoccurs => hrun.ne' (Nat.le_zero.mp hoccurs.length_le)
    rw [htable]
    exact scanRun_eq hfilled seq hrun (longest_nil run) hnot

/-- Both loops end, and the run is found where it stands in a row. -/
theorem containsRun_iff (seq run : List α) :
    (containsRun seq run).isSome = true ∧ (containsRun seq run = some true ↔ run <:+: seq) := by
  rw [containsRun_eq]
  exact ⟨rfl, by rw [Option.some.injEq, decide_eq_true_eq]⟩

example : containsRun ["a", "b", "a", "b", "a", "c"] ["a", "b", "a", "c"] = some true := by decide

end Run

/-! ### The score -/

def weightSubject : ℕ := 6
def weightTag : ℕ := 4
def weightContent : ℕ := 1
def contentTfCap : ℕ := 3
def phraseBonus : ℕ := 5

/-- What a word of the query is worth. -/
def wordScore (subject tags content : List String) (q : String) : ℕ :=
  (if subject.contains q then weightSubject else 0) + (if tags.contains q then weightTag else 0) +
    weightContent * min contentTfCap (content.count q)

/-- The bonus, where a text that is asked for the phrase has it; the later text is not asked once one has. -/
def phraseScore (phrase : List String) : List (List String) → Option ℕ
  | [] => some 0
  | text :: texts => (containsRun text phrase).bind fun found => if found then some phraseBonus else phraseScore phrase texts

/-- `score`; without a phrase the words of the query are one. -/
def score (subject : Option String) (content : String) (tags : List String) (words : List String)
    (phrase : Option (List String)) : Option ℕ := do
  let subjectTokens := tokens (subject.getD "")
  let tagTokens := tokens (" ".intercalate tags)
  let contentTokens := tokens content
  let phrase := phrase.getD words
  let bonus ← if 1 < phrase.length then phraseScore phrase [subjectTokens, contentTokens] else some 0
  return (words.map (wordScore subjectTokens tagTokens contentTokens)).sum + bonus

/-- A score is always found, and the phrase counts where the subject or the content has its words in a row. -/
theorem score_eq (subject : Option String) (content : String) (tags words : List String) (phrase : Option (List String)) :
    score subject content tags words phrase = some ((words.map (wordScore (tokens (subject.getD ""))
      (tokens (" ".intercalate tags)) (tokens content))).sum + if 1 < (phrase.getD words).length ∧
        (phrase.getD words <:+: tokens (subject.getD "") ∨ phrase.getD words <:+: tokens content) then phraseBonus else 0) := by
  have hphrase : ∀ phrase a b, phraseScore phrase [a, b] = some (if phrase <:+: a ∨ phrase <:+: b then phraseBonus else 0) := by
    intro phrase a b
    by_cases ha : phrase <:+: a
    · simp [phraseScore, containsRun_eq, ha]
    · by_cases hb : phrase <:+: b <;> simp [phraseScore, containsRun_eq, ha, hb]
  simp only [score, hphrase, bind, Option.bind, pure]
  by_cases hlen : 1 < (phrase.getD words).length <;> simp [hlen]

end ContinuityLedger.Records.LedgerSearch
