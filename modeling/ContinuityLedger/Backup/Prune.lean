import ContinuityLedger.Backup.Stamps
import ContinuityLedger.Foundations.Retention
import Mathlib

/-! `prune.sh`: which backup sets a run keeps, and what is left after many runs. -/

namespace ContinuityLedger.Backup

open Foundations Foundations.Retention

/-! ### The directory -/

/-- The names in the backup directory, each once. -/
abbrev Directory := List (List Char)

def partsOf (signed : Bool) : List (List Char) :=
  ([".dump", ".globals.sql", ".data.tar", ".counts", ".anchors"] ++ (if signed then [".signatures.json"] else []) ++
    [".sha256"]).map String.toList

/-- `mv` of the parts, the checksum file last; `signed` tells which dumps had signatures to export. -/
def publish (signed : Stamp → Bool) (dir : Directory) (s : Stamp) : Directory :=
  (partsOf (signed s)).foldl (fun dir part => dir.insert (base s ++ part)) dir

/-- `s/^\(jarvis-[0-9]\{8\}T[0-9]\{6\}Z\)\.sha256$/\1/p`. -/
def complete (name : List Char) : Option (List Char) :=
  if isBase (name.take 23) ∧ name.drop 23 = ".sha256".toList then some (name.take 23) else none

/-- Complete sets only, newest first. -/
def sets (dir : Directory) : List (List Char) := (dir.filterMap complete).mergeSort fun a b => b ≤ a

/-! ### A run -/

structure Keep where
  recent : ℕ
  days : ℕ
  weeks : ℕ
  recent_pos : 0 < recent
  days_pos : 0 < days
  weeks_pos : 0 < weeks

structure Loop where
  i : ℕ
  keep : List (List Char)
  seenDay : List (List Char)
  seenWeek : List (ℤ × ℤ)

/-- One turn of the loop over the sets. A stamp that `date` refuses ends the script. -/
def visit (k : Keep) (now : ℤ) (loop : Loop) (base : List Char) : Option Loop := do
  let stamp := base.drop 7
  let epoch ← toEpoch stamp
  let ageDays := (now - epoch).tdiv 86400
  let day := stamp.take 8
  let week := isoWeek (← dayOf day)
  let kept := loop.i < k.recent ∨ (ageDays < k.days ∧ !loop.seenDay.contains day) ∨
    (ageDays < k.weeks * 7 ∧ !loop.seenWeek.contains week)
  some ⟨loop.i + 1, if kept then base :: loop.keep else loop.keep, day :: loop.seenDay, week :: loop.seenWeek⟩

/-- `rm -f` of all the parts. -/
def remove (dir : Directory) (base : List Char) : Directory := dir.filter fun name => !((partsOf true).map (base ++ ·)).contains name

def prune (k : Keep) (now : ℤ) (dir : Directory) : Option Directory := do
  let loop ← (sets dir).foldlM (visit k now) ⟨0, [], [], []⟩
  some ((sets dir).foldl (fun dir base => if loop.keep.contains base then dir else remove dir base) dir)

def step (signed : Stamp → Bool) (k : Keep) (dir : Directory) : Event Stamp ℤ → Option Directory
  | .publish s => some (publish signed dir s)
  | .prune now => prune k now dir

def run (signed : Stamp → Bool) (k : Keep) (events : List (Event Stamp ℤ)) : Option Directory :=
  events.foldlM (step signed k) []

/-! ### What is to be kept -/

/-- The newest of each UTC day younger than some days. -/
def daily (k : Keep) : Slot Stamp ℤ ℤ where
  key s := s.day
  young now s := now - s.val < k.days * 86400
  young_newer {now x y} h hxy := by
    have hle : x.val ≤ y.val := hxy
    omega
  young_earlier h hnow := by omega

/-- The newest of each ISO week younger than some weeks. -/
def weekly (k : Keep) : Slot Stamp ℤ ℤ where
  key s := monday s.day
  young now s := now - s.val < k.weeks * 7 * 86400
  young_newer {now x y} h hxy := by
    have hle : x.val ≤ y.val := hxy
    omega
  young_earlier h hnow := by omega

abbrev Kept (k : Keep) (now : ℤ) (sets : Finset Stamp) (s : Stamp) : Prop := Selected k.recent [daily k, weekly k] now sets s

/-- A set's files, as far as the directory has any, are those it was published with. -/
structure Holds (signed : Stamp → Bool) (dir : Directory) (sets : Finset Stamp) : Prop where
  nodup : dir.Nodup
  mem : ∀ name, name ∈ dir ↔ ∃ s ∈ sets, ∃ part ∈ partsOf (signed s), name = base s ++ part

/-! ### Names -/

lemma isBase_length {b : List Char} (h : isBase b = true) : b.length = 23 := by
  simp only [isBase, Bool.and_eq_true, decide_eq_true_eq] at h
  exact h.1.1.1.1.1

lemma complete_eq_some {name b : List Char} : complete name = some b ↔ isBase b = true ∧ name = b ++ ".sha256".toList := by
  rw [complete]
  constructor
  · intro h
    split_ifs at h with hc
    obtain rfl := Option.some.inj h
    exact ⟨hc.1, by rw [← hc.2, List.take_append_drop]⟩
  · rintro ⟨hb, rfl⟩
    rw [List.take_left' (isBase_length hb), List.drop_left' (isBase_length hb), if_pos ⟨hb, rfl⟩]

lemma partsOf_subset (signed : Bool) : partsOf signed ⊆ partsOf true := by
  cases signed with
  | true => exact List.Subset.refl _
  | false => decide

lemma sha256_mem (signed : Bool) : ".sha256".toList ∈ partsOf signed := by
  cases signed <;> decide

lemma file_inj {s t : Stamp} {p q : List Char} (h : base s ++ p = base t ++ q) : s = t ∧ p = q := by
  obtain ⟨hbase, hpart⟩ := List.append_inj h ((base_length s).trans (base_length t).symm)
  exact ⟨base_injective hbase, hpart⟩

variable {signed : Stamp → Bool} {k : Keep} {now : ℤ} {dir : Directory} {S : Finset Stamp} {s : Stamp}

lemma Holds.complete_mem (h : Holds signed dir S) {b : List Char} : b ∈ dir.filterMap complete ↔ ∃ s ∈ S, b = base s := by
  rw [List.mem_filterMap]
  constructor
  · rintro ⟨name, hname, hb⟩
    obtain ⟨s, hs, part, -, rfl⟩ := (h.mem name).mp hname
    obtain ⟨hb, heq⟩ := complete_eq_some.mp hb
    exact ⟨s, hs, (List.append_inj heq ((base_length s).trans (isBase_length hb).symm)).1.symm⟩
  · rintro ⟨s, hs, rfl⟩
    exact ⟨_, (h.mem _).mpr ⟨s, hs, _, sha256_mem _, rfl⟩, complete_eq_some.mpr ⟨isBase_base s, rfl⟩⟩

lemma Holds.sets_eq (h : Holds signed dir S) : sets dir = (S.sort (· ≥ ·)).map base := by
  have hnodup : (dir.filterMap complete).Nodup := by
    apply h.nodup.filterMap
    intro a a' b hb hb'
    rw [(complete_eq_some.mp hb).2, (complete_eq_some.mp hb').2]
  have hsorted : ((S.sort (· ≥ ·)).map base).Pairwise (· ≥ ·) := by
    refine List.pairwise_map.mpr ((Finset.pairwise_sort S (· ≥ ·)).imp fun {s t} hst => ?_)
    rcases lt_or_eq_of_le hst with hlt | rfl
    · exact (base_lt hlt).le
    · exact le_refl _
  have hperm : (dir.filterMap complete).Perm ((S.sort (· ≥ ·)).map base) := by
    refine (List.perm_ext_iff_of_nodup hnodup ((Finset.sort_nodup S (· ≥ ·)).map base_injective)).mpr fun b => ?_
    rw [h.complete_mem, List.mem_map]
    constructor
    · rintro ⟨s, hs, rfl⟩
      exact ⟨s, (Finset.mem_sort _).mpr hs, rfl⟩
    · rintro ⟨s, hs, rfl⟩
      exact ⟨s, (Finset.mem_sort _).mp hs, rfl⟩
  have hsort : (sets dir).Pairwise (· ≥ ·) := by
    refine (List.pairwise_mergeSort (fun a b c hab hbc => ?_) (fun a b => ?_) _).imp of_decide_eq_true
    · exact decide_eq_true ((of_decide_eq_true hbc).trans (of_decide_eq_true hab))
    · simpa using le_total b a
  exact ((List.mergeSort_perm _ _).trans hperm).eq_of_pairwise (fun _ _ _ _ hab hba => le_antisymm hba hab) hsort hsorted

/-! ### The loop -/

lemma age_iff {n : ℕ} (hn : 0 < n) (age : ℤ) : age.tdiv 86400 < n ↔ age < n * 86400 := by
  rcases Int.le_total 0 age with hage | hage
  · rw [Int.tdiv_eq_ediv_of_nonneg hage]
    omega
  · have hle : 0 ≤ (-age).tdiv 86400 := Int.tdiv_nonneg (by omega) (by decide)
    rw [Int.neg_tdiv] at hle
    exact iff_of_true (by omega) (by omega)

/-- What the loop knows after the newest of the sets. -/
structure Walked (k : Keep) (now : ℤ) (done : List Stamp) (loop : Loop) : Prop where
  count : loop.i = done.length
  keep : ∀ s, base s ∈ loop.keep ↔ s ∈ done ∧ Kept k now done.toFinset s
  days : ∀ s, (stampUtc s).take 8 ∈ loop.seenDay ↔ ∃ t ∈ done, t.day = s.day
  weeks : ∀ s : Stamp, isoWeek s.day ∈ loop.seenWeek ↔ ∃ t ∈ done, monday t.day = monday s.day

lemma kept_iff {sets : Finset Stamp} : Kept k now sets s ↔ newer sets s < k.recent ∨
    (now - s.val < k.days * 86400 ∧ ∀ t ∈ sets, s < t → t.day ≠ s.day) ∨
    (now - s.val < k.weeks * 7 * 86400 ∧ ∀ t ∈ sets, s < t → monday t.day ≠ monday s.day) := by
  unfold Kept Selected
  simp only [List.mem_cons, List.not_mem_nil, or_false, exists_eq_or_imp, exists_eq_left, daily, weekly]

lemma Kept.older {done : List Stamp} {t : Stamp} (hst : s < t) :
    Kept k now (done ++ [s]).toFinset t ↔ Kept k now done.toFinset t := by
  refine Selected.congr fun y hty => ?_
  rw [List.mem_toFinset, List.mem_toFinset, List.mem_append, List.mem_singleton]
  exact ⟨fun h => h.resolve_right fun hy => lt_asymm hst (hy ▸ hty), Or.inl⟩

lemma kept_last {done : List Stamp} (hnodup : done.Nodup) (hold : ∀ t ∈ done, s < t) : Kept k now (done ++ [s]).toFinset s ↔
    done.length < k.recent ∨ (now - s.val < k.days * 86400 ∧ ∀ t ∈ done, t.day ≠ s.day) ∨
    (now - s.val < k.weeks * 7 * 86400 ∧ ∀ t ∈ done, monday t.day ≠ monday s.day) := by
  have hnewer : (done ++ [s]).toFinset.filter (s < ·) = done.toFinset := by
    ext t
    rw [Finset.mem_filter, List.mem_toFinset, List.mem_toFinset, List.mem_append, List.mem_singleton]
    constructor
    · rintro ⟨ht | rfl, hst⟩
      · exact ht
      · exact absurd hst (lt_irrefl _)
    · exact fun ht => ⟨Or.inl ht, hold t ht⟩
  have hother : ∀ P : Stamp → Prop, (∀ t ∈ (done ++ [s]).toFinset, s < t → P t) ↔ ∀ t ∈ done, P t := by
    intro P
    constructor
    · exact fun h t ht => h t (List.mem_toFinset.mpr (List.mem_append_left _ ht)) (hold t ht)
    · intro h t ht hst
      rcases List.mem_append.mp (List.mem_toFinset.mp ht) with ht | ht
      · exact h t ht
      · exact absurd hst (List.mem_singleton.mp ht ▸ lt_irrefl _)
  rw [kept_iff, newer, hnewer, List.toFinset_card_of_nodup hnodup, hother, hother]

lemma exists_snoc {done : List Stamp} {P : Stamp → Prop} : (∃ t ∈ done ++ [s], P t) ↔ P s ∨ ∃ t ∈ done, P t := by
  simp only [List.mem_append, List.mem_singleton, or_and_right, exists_or, exists_eq_left, or_comm]

lemma visit_base (loop : Loop) : visit k now loop (base s) = some ⟨loop.i + 1,
    if loop.i < k.recent ∨ ((now - s.val).tdiv 86400 < k.days ∧ !loop.seenDay.contains ((stampUtc s).take 8)) ∨
      ((now - s.val).tdiv 86400 < k.weeks * 7 ∧ !loop.seenWeek.contains (isoWeek s.day)) then base s :: loop.keep else loop.keep,
    (stampUtc s).take 8 :: loop.seenDay, isoWeek s.day :: loop.seenWeek⟩ := by
  simp only [visit, base_drop, toEpoch_stamp, dayOf_stamp, Option.bind_eq_bind, Option.bind_some]

lemma Walked.visit {done : List Stamp} {loop : Loop} (h : Walked k now done loop) (hnodup : done.Nodup) (hold : ∀ t ∈ done, s < t) :
    ∃ loop', visit k now loop (base s) = some loop' ∧ Walked k now (done ++ [s]) loop' := by
  have hkept : (loop.i < k.recent ∨ ((now - s.val).tdiv 86400 < k.days ∧ !loop.seenDay.contains ((stampUtc s).take 8)) ∨
      ((now - s.val).tdiv 86400 < k.weeks * 7 ∧ !loop.seenWeek.contains (isoWeek s.day))) ↔ Kept k now (done ++ [s]).toFinset s := by
    have hweeks := age_iff (Nat.mul_pos k.weeks_pos (by decide : 0 < 7)) (now - s.val)
    rw [Nat.cast_mul, Nat.cast_ofNat] at hweeks
    rw [kept_last hnodup hold, h.count, Bool.not_eq_true', Bool.not_eq_true', ← Bool.not_eq_true, ← Bool.not_eq_true,
      List.contains_iff_mem, List.contains_iff_mem, h.days, h.weeks, age_iff k.days_pos, hweeks]
    simp only [not_exists, not_and, ne_eq]
  have hkeep : ∀ {P : Prop} [Decidable P] (t : Stamp), base t ∈ (if P then base s :: loop.keep else loop.keep) ↔
      (t = s ∧ P) ∨ base t ∈ loop.keep := by
    intro P _ t
    split_ifs with hs
    · rw [List.mem_cons, base_injective.eq_iff, and_iff_left hs]
    · exact ⟨Or.inr, fun ht => ht.resolve_left fun ht => hs ht.2⟩
  refine ⟨_, visit_base loop, ?_, fun t => ?_, fun t => ?_, fun t => ?_⟩
  · simp [h.count]
  · rw [hkeep, hkept, h.keep, List.mem_append, List.mem_singleton]
    constructor
    · rintro (⟨rfl, hs⟩ | ⟨ht, hs⟩)
      · exact ⟨Or.inr rfl, hs⟩
      · exact ⟨Or.inl ht, (Kept.older (hold t ht)).mpr hs⟩
    · rintro ⟨ht | rfl, hs⟩
      · exact Or.inr ⟨ht, (Kept.older (hold t ht)).mp hs⟩
      · exact Or.inl ⟨rfl, hs⟩
  · rw [List.mem_cons, stampDay_eq_iff, h.days, exists_snoc, eq_comm]
  · rw [List.mem_cons, isoWeek_eq_iff, h.weeks, exists_snoc, eq_comm]

lemma Walked.walk {todo : List Stamp} : ∀ {done : List Stamp} {loop : Loop}, Walked k now done loop → (done ++ todo).Pairwise (· > ·) →
    ∃ loop', (todo.map base).foldlM (Backup.visit k now) loop = some loop' ∧ Walked k now (done ++ todo) loop' := by
  induction todo with
  | nil => exact fun {_ loop} h _ => ⟨loop, rfl, by rwa [List.append_nil]⟩
  | cons s todo ih =>
    intro done loop h hsorted
    obtain ⟨hdone, -, hold⟩ := List.pairwise_append.mp hsorted
    obtain ⟨loop', hvisit, h'⟩ := h.visit (hdone.imp fun hst => (ne_of_gt hst)) fun t ht => hold t ht s List.mem_cons_self
    rw [List.append_cons] at hsorted ⊢
    obtain ⟨last, hlast, hwalked⟩ := ih h' hsorted
    exact ⟨last, by rw [List.map_cons, List.foldlM_cons, hvisit, Option.bind_eq_bind, Option.bind_some, hlast], hwalked⟩

lemma walked_nil (k : Keep) (now : ℤ) : Walked k now [] ⟨0, [], [], []⟩ :=
  ⟨rfl, fun s => by simp, fun s => by simp, fun s => by simp⟩

/-! ### The steps -/

lemma mem_remove {b name : List Char} : name ∈ remove dir b ↔ name ∈ dir ∧ ∀ part ∈ partsOf true, name ≠ b ++ part := by
  rw [remove, List.mem_filter, Bool.not_eq_true', ← Bool.not_eq_true, List.contains_iff_mem, List.mem_map]
  simp only [not_exists, not_and, ne_eq, eq_comm]

lemma mem_removed {keep names : List (List Char)} {name : List Char} :
    name ∈ names.foldl (fun dir base => if keep.contains base then dir else remove dir base) dir ↔
      name ∈ dir ∧ ∀ b ∈ names, b ∉ keep → ∀ part ∈ partsOf true, name ≠ b ++ part := by
  induction names generalizing dir with
  | nil => simp
  | cons b names ih =>
    rw [List.foldl_cons, ih, List.forall_mem_cons]
    split_ifs with hb <;> rw [List.contains_iff_mem] at hb
    · rw [iff_true_intro (fun h => absurd hb h : b ∉ keep → _), true_and]
    · rw [mem_remove, forall_prop_of_true hb, and_assoc]

lemma nodup_removed {keep names : List (List Char)} (h : dir.Nodup) :
    (names.foldl (fun dir base => if keep.contains base then dir else remove dir base) dir).Nodup := by
  induction names generalizing dir with
  | nil => exact h
  | cons b names ih =>
    rw [List.foldl_cons]
    apply ih
    split_ifs
    · exact h
    · exact h.filter _

lemma walk_sets (k : Keep) (now : ℤ) (S : Finset Stamp) : ∃ loop, ((S.sort (· ≥ ·)).map base).foldlM (visit k now) ⟨0, [], [], []⟩ = some loop ∧
    ∀ s ∈ S, base s ∈ loop.keep ↔ Kept k now S s := by
  have hsorted : ([] ++ S.sort (· ≥ ·)).Pairwise (· > ·) := (Finset.sortedGT_sort S).pairwise
  obtain ⟨loop, hloop, hwalked⟩ := (walked_nil k now).walk hsorted
  refine ⟨loop, hloop, fun s hs => ?_⟩
  rw [hwalked.keep, List.nil_append, Finset.sort_toFinset, and_iff_right ((Finset.mem_sort _).mpr hs)]

/-- A run keeps what is to be kept, and all of its files. -/
lemma Holds.prune (h : Holds signed dir S) (k : Keep) (now : ℤ) :
    ∃ dir', prune k now dir = some dir' ∧ Holds signed dir' (selected k.recent [daily k, weekly k] now S) := by
  obtain ⟨loop, hloop, hkeep⟩ := walk_sets k now S
  rw [Backup.prune, h.sets_eq, hloop]
  refine ⟨_, rfl, nodup_removed h.nodup, fun name => ?_⟩
  rw [mem_removed, h.mem]
  constructor
  · rintro ⟨⟨s, hs, part, hpart, rfl⟩, hgone⟩
    refine ⟨s, mem_selected.mpr ⟨hs, ?_⟩, part, hpart, rfl⟩
    by_contra hnot
    have hin : base s ∈ (S.sort (· ≥ ·)).map base := List.mem_map_of_mem ((Finset.mem_sort _).mpr hs)
    exact hgone _ hin (fun hin => hnot ((hkeep s hs).mp hin)) part (partsOf_subset _ hpart) rfl
  · rintro ⟨s, hs, part, hpart, rfl⟩
    obtain ⟨hs, hkept⟩ := mem_selected.mp hs
    refine ⟨⟨s, hs, part, hpart, rfl⟩, fun b hb hnot part' _ heq => hnot ?_⟩
    obtain ⟨t, -, rfl⟩ := List.mem_map.mp hb
    rw [← (file_inj heq).1]
    exact (hkeep s hs).mpr hkept

lemma mem_published {parts : List (List Char)} {name b : List Char} :
    name ∈ parts.foldl (fun dir part => dir.insert (b ++ part)) dir ↔ name ∈ dir ∨ ∃ part ∈ parts, name = b ++ part := by
  induction parts generalizing dir with
  | nil => simp
  | cons part parts ih =>
    rw [List.foldl_cons, ih, List.mem_insert_iff]
    simp only [List.mem_cons, exists_eq_or_imp]
    tauto

lemma nodup_published {parts : List (List Char)} {b : List Char} (h : dir.Nodup) :
    (parts.foldl (fun dir part => dir.insert (b ++ part)) dir).Nodup := by
  induction parts generalizing dir with
  | nil => exact h
  | cons part parts ih => exact ih (h.insert)

lemma Holds.publish (h : Holds signed dir S) (s : Stamp) : Holds signed (publish signed dir s) (insert s S) := by
  refine ⟨nodup_published h.nodup, fun name => ?_⟩
  rw [Backup.publish, mem_published, h.mem]
  simp only [Finset.mem_insert, exists_eq_or_imp]
  exact or_comm

lemma holds_run (signed : Stamp → Bool) (k : Keep) (events : List (Event Stamp ℤ)) :
    ∃ dir, run signed k events = some dir ∧ Holds signed dir (present k.recent [daily k, weekly k] events) := by
  induction events using List.reverseRecOn with
  | nil => exact ⟨[], rfl, List.nodup_nil, fun name => by simp [present]⟩
  | append_singleton events e ih =>
    obtain ⟨dir, hrun, h⟩ := ih
    rw [run] at hrun
    rw [run, List.foldlM_append, hrun]
    cases e with
    | publish s =>
      rw [present_publish]
      exact ⟨_, rfl, h.publish s⟩
    | prune now =>
      rw [present_prune]
      obtain ⟨dir', hprune, h'⟩ := h.prune k now
      exact ⟨dir', by simp [step, hprune], h'⟩

/-- A run that finds only what it keeps deletes nothing. -/
lemma Holds.prune_self (h : Holds signed dir S) (hkept : ∀ s ∈ S, Kept k now S s) : Backup.prune k now dir = some dir := by
  obtain ⟨loop, hloop, hkeep⟩ := walk_sets k now S
  have hnone : ∀ names : List (List Char), (∀ b ∈ names, b ∈ loop.keep) →
      names.foldl (fun dir base => if loop.keep.contains base then dir else remove dir base) dir = dir := by
    intro names hnames
    induction names with
    | nil => rfl
    | cons b names ih =>
      rw [List.foldl_cons, if_pos (List.contains_iff_mem.mpr (hnames b List.mem_cons_self))]
      exact ih fun c hc => hnames c (List.mem_cons_of_mem _ hc)
  rw [Backup.prune, h.sets_eq, hloop, Option.bind_eq_bind, Option.bind_some, hnone]
  intro b hb
  obtain ⟨s, hs, rfl⟩ := List.mem_map.mp hb
  exact (hkeep s ((Finset.mem_sort _).mp hs)).mpr (hkept s ((Finset.mem_sort _).mp hs))

/-- Runs of `prune.sh` between the backups, at times that never go back, leave what one run at the last of these times would
select of all the sets: no run fails, running once more changes nothing, every set that the last run would select was there after
every earlier event, and the newest set stays. -/
theorem pruned_as_once (signed : Stamp → Bool) (k : Keep) (events : List (Event Stamp ℤ)) (now : ℤ)
    (h : Timely (events ++ [.prune now])) :
    (∃ dir, run signed k (events ++ [.prune now]) = some dir ∧
      Holds signed dir (selected k.recent [daily k, weekly k] now (published events)) ∧ prune k now dir = some dir) ∧
    (∀ earlier later, events = earlier ++ later → ∃ dir sets, run signed k earlier = some dir ∧ Holds signed dir sets ∧
      ∀ s ∈ published earlier, Kept k now (published events) s → s ∈ sets) ∧
    ∀ s ∈ published events, (∀ t ∈ published events, t ≤ s) → s ∈ selected k.recent [daily k, weekly k] now (published events) := by
  refine ⟨?_, fun earlier later hsplit => ?_, fun s hs hnewest => newest_selected k.recent_pos hs hnewest⟩
  · obtain ⟨dir, hrun, hholds⟩ := holds_run signed k (events ++ [.prune now])
    rw [h.present_eq] at hholds
    refine ⟨dir, hrun, hholds, hholds.prune_self fun s hs => ?_⟩
    rw [← selected_selected] at hs
    exact (mem_selected.mp hs).2
  · obtain ⟨dir, hrun, hholds⟩ := holds_run signed k earlier
    subst hsplit
    refine ⟨dir, _, hrun, hholds, fun s hs hkept => ?_⟩
    have htimely : Timely earlier := (List.pairwise_append.mp h.init).1
    refine htimely.kept (fun t ht => h.last t (List.mem_append_left _ ht)) hs (hkept.before ?_ le_rfl)
    exact published_append _ _

/-- One set is kept for its week; a run in between has deleted another of its day. -/
def hourly : List (Event Stamp ℤ) :=
  [.publish ⟨1790000000, by decide⟩, .publish ⟨1790003600, by decide⟩, .prune 1790003600, .publish ⟨1790700000, by decide⟩]

theorem pruned_as_once_hourly :
    (∃ dir, run (fun _ => true) ⟨1, 1, 2, by decide, by decide, by decide⟩ (hourly ++ [.prune 1790700001]) = some dir ∧
      Holds (fun _ => true) dir (selected 1 [daily ⟨1, 1, 2, by decide, by decide, by decide⟩,
        weekly ⟨1, 1, 2, by decide, by decide, by decide⟩] 1790700001 (published hourly))) := by
  have htimely : Timely (hourly ++ [.prune 1790700001]) := by simp [Timely, hourly]
  obtain ⟨dir, hrun, hholds, -⟩ := (pruned_as_once (fun _ => true) ⟨1, 1, 2, by decide, by decide, by decide⟩ hourly 1790700001 htimely).1
  exact ⟨dir, hrun, hholds⟩

end ContinuityLedger.Backup
