import Mathlib.Data.Finset.Card
import Mathlib.Data.Finset.Insert
import Mathlib.Order.Lattice
import Mathlib.Tactic.Common

/-! Retention that keeps the newest few, and the newest of each slot while it is young. Pruning now and then keeps what one
pruning at the end would keep. -/

namespace ContinuityLedger.Foundations.Retention

structure Slot (α T K : Type) [LinearOrder α] [LinearOrder T] where
  key : α → K
  young : T → α → Prop
  young_newer : ∀ {now x y}, young now x → x ≤ y → young now y
  young_earlier : ∀ {now now' x}, young now' x → now ≤ now' → young now x

inductive Event (α T : Type)
  | publish (x : α)
  | prune (now : T)

section
variable {α T : Type} [LinearOrder T] {events : List (Event α T)} {e : Event α T} {now : T}

/-- The runs' clock never goes back. -/
def Timely (events : List (Event α T)) : Prop :=
  events.Pairwise fun e f => ∀ now now', e = .prune now → f = .prune now' → now ≤ now'

lemma Timely.init (h : Timely (events ++ [e])) : Timely events := (List.pairwise_append.mp h).1

lemma Timely.last (h : Timely (events ++ [.prune now])) : ∀ s, .prune s ∈ events → s ≤ now :=
  fun s hs => (List.pairwise_append.mp h).2.2 _ hs _ (List.mem_singleton_self _) s now rfl rfl

end

section
variable {α T : Type} [LinearOrder α] {events : List (Event α T)} {x : α} {now : T}

def published (events : List (Event α T)) : Finset α :=
  events.foldl (fun sets e => match e with | .publish x => insert x sets | .prune _ => sets) ∅

@[simp] lemma published_publish : published (events ++ [.publish x]) = insert x (published events) := by
  simp [published]

@[simp] lemma published_prune : published (events ++ [.prune now]) = published events := by
  simp [published]

lemma published_append (earlier later : List (Event α T)) : published earlier ⊆ published (earlier ++ later) := by
  induction later using List.reverseRecOn with
  | nil => rw [List.append_nil]
  | append_singleton later e ih =>
    rw [← List.append_assoc]
    cases e with
    | publish x =>
      rw [published_publish]
      exact ih.trans (Finset.subset_insert _ _)
    | prune now => rwa [published_prune]

end

section
variable {α T K : Type} [LinearOrder α] [LinearOrder T]

def newer (sets : Finset α) (x : α) : ℕ := (sets.filter (x < ·)).card

/-- One of the newest, or the newest of a young slot. -/
def Selected (recent : ℕ) (slots : List (Slot α T K)) (now : T) (sets : Finset α) (x : α) : Prop :=
  newer sets x < recent ∨ ∃ s ∈ slots, s.young now x ∧ ∀ y ∈ sets, x < y → s.key y ≠ s.key x

open Classical in
noncomputable def selected (recent : ℕ) (slots : List (Slot α T K)) (now : T) (sets : Finset α) : Finset α :=
  sets.filter (Selected recent slots now sets)

noncomputable def present (recent : ℕ) (slots : List (Slot α T K)) (events : List (Event α T)) : Finset α :=
  events.foldl (fun sets e => match e with | .publish x => insert x sets | .prune now => selected recent slots now sets) ∅

variable {recent : ℕ} {slots : List (Slot α T K)} {now now' : T} {sets rest : Finset α} {x y : α} {events : List (Event α T)}

open Classical in
lemma mem_selected : x ∈ selected recent slots now sets ↔ x ∈ sets ∧ Selected recent slots now sets x := by
  unfold selected
  exact Finset.mem_filter

lemma selected_subset : selected recent slots now sets ⊆ sets := fun _ hx => (mem_selected.mp hx).1

@[simp] lemma present_publish : present recent slots (events ++ [.publish x]) = insert x (present recent slots events) := by
  simp [present]

@[simp] lemma present_prune : present recent slots (events ++ [.prune now]) =
    selected recent slots now (present recent slots events) := by
  simp [present]

lemma newer_mono (h : ∀ z ∈ rest, x < z → z ∈ sets) : newer rest x ≤ newer sets x := by
  apply Finset.card_le_card
  intro z hz
  obtain ⟨hz, hxz⟩ := Finset.mem_filter.mp hz
  exact Finset.mem_filter.mpr ⟨h z hz hxz, hxz⟩

lemma newer_anti (sets : Finset α) (h : x ≤ y) : newer sets y ≤ newer sets x := by
  apply Finset.card_le_card
  intro z hz
  obtain ⟨hz, hyz⟩ := Finset.mem_filter.mp hz
  exact Finset.mem_filter.mpr ⟨hz, h.trans_lt hyz⟩

lemma newer_lt (hy : y ∈ sets) (h : x < y) : newer sets y < newer sets x := by
  refine Finset.card_lt_card ⟨fun z hz => ?_, fun hsub => ?_⟩
  · obtain ⟨hz, hyz⟩ := Finset.mem_filter.mp hz
    exact Finset.mem_filter.mpr ⟨hz, h.trans hyz⟩
  · exact lt_irrefl y (Finset.mem_filter.mp (hsub (Finset.mem_filter.mpr ⟨hy, h⟩))).2

/-- Induction from the newest. -/
lemma newest_induction {P : α → Prop} (h : ∀ y ∈ sets, (∀ z ∈ sets, y < z → P z) → P y) : ∀ y ∈ sets, P y := by
  intro y hy
  induction hn : newer sets y using Nat.strong_induction_on generalizing y with
  | _ n ih =>
    subst hn
    exact h y hy fun z hz hyz => ih _ (newer_lt hz hyz) z hz rfl

/-- What is selected of more sets, and later, is selected of fewer, and was before. -/
lemma Selected.before (h : Selected recent slots now' sets x) (hsub : rest ⊆ sets) (hnow : now ≤ now') :
    Selected recent slots now rest x := by
  rcases h with h | ⟨s, hs, hyoung, hnewest⟩
  · exact Or.inl ((newer_mono fun z hz _ => hsub hz).trans_lt h)
  · exact Or.inr ⟨s, hs, s.young_earlier hyoung hnow, fun y hy => hnewest y (hsub hy)⟩

lemma Selected.congr (h : ∀ y, x < y → (y ∈ rest ↔ y ∈ sets)) :
    Selected recent slots now rest x ↔ Selected recent slots now sets x := by
  have hnewer : newer rest x = newer sets x :=
    le_antisymm (newer_mono fun y hy hxy => (h y hxy).mp hy) (newer_mono fun y hy hxy => (h y hxy).mpr hy)
  have hslot : ∀ s : Slot α T K, (∀ y ∈ rest, x < y → s.key y ≠ s.key x) ↔ ∀ y ∈ sets, x < y → s.key y ≠ s.key x :=
    fun s => ⟨fun hs y hy hxy => hs y ((h y hxy).mpr hy) hxy, fun hs y hy hxy => hs y ((h y hxy).mp hy) hxy⟩
  unfold Selected
  simp only [hnewer, hslot]

/-- What is missing was not selected, so no one is selected in its place. -/
lemma Selected.among (h : Selected recent slots now rest x)
    (hkept : ∀ y ∈ sets, Selected recent slots now sets y → y ∈ rest) : Selected recent slots now sets x := by
  rcases h with h | ⟨s, hs, hyoung, hnewest⟩
  · have hall : ∀ y ∈ sets, x < y → y ∈ rest := by
      apply newest_induction
      intro y hy ih hxy
      refine hkept y hy (Or.inl ?_)
      have hnewer : newer sets y ≤ newer rest y := newer_mono fun z hz hyz => ih z hz hyz (hxy.trans hyz)
      exact (hnewer.trans (newer_anti rest hxy.le)).trans_lt h
    exact Or.inl ((newer_mono hall).trans_lt h)
  · have hall : ∀ y ∈ sets, x < y → s.key y ≠ s.key x := by
      apply newest_induction
      intro y hy ih hxy hkey
      have hselected : Selected recent slots now sets y := by
        refine Or.inr ⟨s, hs, s.young_newer hyoung hxy.le, fun z hz hyz hzkey => ?_⟩
        exact ih z hz hyz (hxy.trans hyz) (hzkey.trans hkey)
      exact hnewest y (hkept y hy hselected) hxy hkey
    exact Or.inr ⟨s, hs, hyoung, hall⟩

lemma present_subset : present recent slots events ⊆ published events := by
  induction events using List.reverseRecOn with
  | nil => exact Finset.Subset.refl _
  | append_singleton events e ih =>
    cases e with
    | publish x =>
      rw [present_publish, published_publish]
      exact Finset.insert_subset_insert x ih
    | prune now =>
      rw [present_prune, published_prune]
      exact selected_subset.trans ih

/-- No run deletes what a later one would keep. -/
lemma Timely.kept (h : Timely events) (hnow : ∀ s, .prune s ∈ events → s ≤ now) (hx : x ∈ published events)
    (hselected : Selected recent slots now (published events) x) : x ∈ present recent slots events := by
  induction events using List.reverseRecOn with
  | nil => exact absurd hx (Finset.notMem_empty x)
  | append_singleton events e ih =>
    have hbefore : ∀ s, .prune s ∈ events → s ≤ now := fun s hs => hnow s (List.mem_append_left _ hs)
    cases e with
    | publish y =>
      rw [present_publish]
      rw [published_publish] at hx hselected
      rcases Finset.mem_insert.mp hx with rfl | hx
      · exact Finset.mem_insert_self _ _
      · exact Finset.mem_insert_of_mem (ih h.init hbefore hx (hselected.before (Finset.subset_insert _ _) le_rfl))
    | prune s =>
      rw [present_prune]
      rw [published_prune] at hx hselected
      have hs : s ≤ now := hnow s (List.mem_append_right _ (List.mem_singleton_self _))
      exact mem_selected.mpr ⟨ih h.init hbefore hx hselected, hselected.before present_subset hs⟩

/-- Many runs keep what one would. -/
lemma Timely.present_eq (h : Timely (events ++ [.prune now])) :
    present recent slots (events ++ [.prune now]) = selected recent slots now (published events) := by
  have hkept : ∀ y ∈ published events, Selected recent slots now (published events) y → y ∈ present recent slots events :=
    fun y hy => h.init.kept h.last hy
  rw [present_prune]
  ext x
  rw [mem_selected, mem_selected]
  constructor
  · rintro ⟨hx, hselected⟩
    exact ⟨present_subset hx, hselected.among hkept⟩
  · rintro ⟨hx, hselected⟩
    exact ⟨hkept x hx hselected, hselected.before present_subset le_rfl⟩

lemma selected_selected : selected recent slots now (selected recent slots now sets) = selected recent slots now sets := by
  refine Finset.Subset.antisymm selected_subset fun x hx => mem_selected.mpr ⟨hx, ?_⟩
  exact (mem_selected.mp hx).2.before selected_subset le_rfl

/-- The newest is never deleted. -/
lemma newest_selected (hrecent : 0 < recent) (hx : x ∈ sets) (hnewest : ∀ y ∈ sets, y ≤ x) :
    x ∈ selected recent slots now sets := by
  refine mem_selected.mpr ⟨hx, Or.inl ?_⟩
  have hnone : newer sets x = 0 :=
    Finset.card_eq_zero.mpr (Finset.filter_eq_empty_iff.mpr fun y hy hxy => (hnewest y hy).not_gt hxy)
  rwa [hnone]

end

end ContinuityLedger.Foundations.Retention
