import Mathlib.Data.Fintype.EquivFin
import Mathlib.Data.List.Nodup
import Mathlib.Data.List.Sort
import Mathlib.Data.Set.Finite.Basic
import Mathlib.Logic.Relation
import Mathlib.Order.Lattice
import Mathlib.Order.WellFounded
import Mathlib.Order.WellFoundedSet

/-! Things that come after one another: where a visible one can always be reached that nothing comes after, and how items that wait for
another are ordered layer by layer, all of them unless some wait in a circle. -/

namespace ContinuityLedger.Foundations.Succession

open Relation

variable {α : Type*} (next : α → α → Prop) (visible : α → Prop)

def OnRing (a : α) : Prop := TransGen next a a

def Ended (a : α) : Prop := ∀ b, ¬ next a b

/-- From every visible thing one comes to a visible thing that nothing comes after. -/
def Kept : Prop := ∀ a, visible a → ∃ b, ReflTransGen next a b ∧ visible b ∧ Ended next b

/-- What comes after a visible thing holds a visible thing that is on no ring. -/
def Continued : Prop := ∀ a, visible a → ¬ Ended next a → ∃ b, TransGen next a b ∧ visible b ∧ ¬ OnRing next b

variable {next visible}

lemma not_onRing_of_ended {a : α} (h : Ended next a) : ¬ OnRing next a := fun hring =>
  have ⟨b, hab, _⟩ := TransGen.head'_iff.mp hring
  h b hab

lemma Kept.continued (h : Kept next visible) : Continued next visible := by
  intro a ha hnext
  obtain ⟨b, hab, hb, hend⟩ := h a ha
  refine ⟨b, ?_, hb, not_onRing_of_ended hend⟩
  rcases reflTransGen_iff_eq_or_transGen.mp hab with rfl | hab
  · exact absurd hend hnext
  · exact hab

/-- Off the rings one cannot go on for ever. -/
lemma wellFounded_offRing [Finite α] : WellFounded fun b a => TransGen next a b ∧ ¬ OnRing next b := by
  have hirrefl : Std.Irrefl fun b a => TransGen next a b ∧ ¬ OnRing next b := ⟨fun a h => h.2 h.1⟩
  have htrans : IsTrans α fun b a => TransGen next a b ∧ ¬ OnRing next b := ⟨fun c b a hcb hba => ⟨hba.1.trans hcb.1, hcb.2⟩⟩
  exact Finite.wellFounded_of_trans_of_irrefl _

lemma Continued.kept [Finite α] (h : Continued next visible) : Kept next visible := by
  intro a ha
  induction a using (@wellFounded_offRing α next _).induction with | _ a ih
  by_cases hend : Ended next a
  · exact ⟨a, .refl, ha, hend⟩
  · obtain ⟨b, hab, hb, hring⟩ := h a ha hend
    obtain ⟨c, hbc, hc, hcend⟩ := ih b ⟨hab, hring⟩ hb
    exact ⟨c, hab.to_reflTransGen.trans hbc, hc, hcend⟩

lemma kept_iff [Finite α] : Kept next visible ↔ Continued next visible := ⟨Kept.continued, Continued.kept⟩

end ContinuityLedger.Foundations.Succession

namespace ContinuityLedger.Foundations.Layers

variable {α K : Type}

/-- An item is ready where the one it waits for is placed, or not there to be placed. -/
def Waits (ready : List K → List K → α → Bool) (next : α → Option K) : Prop :=
  ∀ placed pending a, ready placed pending a = true ↔ ∀ k, next a = some k → k ∈ placed ∨ k ∉ pending

/-- Before each item stands the one it waits for. -/
def InOrder (key : α → K) (next : α → Option K) (keys : List K) (ordered : List α) : Prop :=
  ∀ before a after, ordered = before ++ a :: after → ∀ k, next a = some k → k ∈ keys → k ∈ before.map key

/-- One item waits for another of the list. -/
def Names (key : α → K) (next : α → Option K) (items : List α) (a b : K) : Prop :=
  ∃ x ∈ items, key x = a ∧ next x = some b ∧ b ∈ items.map key

def Circular (key : α → K) (next : α → Option K) (items : List α) : Prop :=
  ∃ k, Relation.TransGen (Names key next items) k k

lemma InOrder.append {key : α → K} {next : α → Option K} {keys : List K} {ordered layer : List α}
    (h : InOrder key next keys ordered) (hlayer : ∀ a ∈ layer, ∀ k, next a = some k → k ∈ keys → k ∈ ordered.map key) :
    InOrder key next keys (ordered ++ layer) := by
  intro before a after hsplit k hk hmem
  rcases List.append_eq_append_iff.mp hsplit with ⟨more, rfl, hmore⟩ | ⟨more, rfl, hmore⟩
  · have ha : a ∈ layer := hmore ▸ List.mem_append_right _ List.mem_cons_self
    rw [List.map_append]
    exact List.mem_append_left _ (hlayer a ha k hk hmem)
  · cases more with
    | nil =>
      have ha : a ∈ layer := by
        rw [List.nil_append] at hmore
        exact hmore ▸ List.mem_cons_self
      simpa using hlayer a ha k hk hmem
    | cons b more =>
      obtain ⟨rfl, -⟩ := List.cons.inj hmore
      exact h before a more rfl k hk hmem

/-- What waits for one another waits in a circle. -/
lemma circular_of_stuck {key : α → K} {next : α → Option K} {items stuck : List α} (hsub : stuck ⊆ items) (hne : stuck ≠ [])
    (hstuck : ∀ a ∈ stuck, ∃ k, next a = some k ∧ k ∈ stuck.map key) : Circular key next items := by
  by_contra hnone
  let Before (b a : K) : Prop := Relation.TransGen (Names key next items) a b
  have hstrict : IsStrictOrder K Before :=
    { irrefl := fun k hk => hnone ⟨k, hk⟩, trans := fun _ _ _ hab hbc => hbc.trans hab }
  have hwf : Set.WellFoundedOn {k | k ∈ stuck.map key} Before := (List.finite_toSet (stuck.map key)).wellFoundedOn
  obtain ⟨a, ha⟩ := List.exists_mem_of_ne_nil _ hne
  have hnot : ∀ k ∈ stuck.map key, False := by
    intro k hk
    refine @Set.WellFoundedOn.induction K Before _ k hwf hk (fun _ => False) ?_
    intro k hk ih
    obtain ⟨b, hb, rfl⟩ := List.mem_map.mp hk
    obtain ⟨k, hnext, hin⟩ := hstuck b hb
    obtain ⟨c, hc, rfl⟩ := List.mem_map.mp hin
    exact ih _ hin (.single ⟨b, hsub hb, rfl, hnext, List.mem_map_of_mem (hsub hc)⟩)
  exact hnot _ (List.mem_map_of_mem ha)

variable [DecidableEq K]

def layer (key : α → K) (ready : List K → List K → α → Bool) (ordered pending : List α) : List α :=
  pending.filter (ready (ordered.map key) (pending.map key))

def without (key : α → K) (placed pending : List α) : List α := pending.filter fun a => !(placed.map key).contains (key a)

lemma without_lt {key : α → K} {placed pending : List α} (hsub : placed ⊆ pending) (hne : placed ≠ []) :
    (without key placed pending).length < pending.length := by
  obtain ⟨a, ha⟩ := List.exists_mem_of_ne_nil _ hne
  refine List.length_filter_lt_length_iff_exists.mpr ⟨a, hsub ha, ?_⟩
  rw [List.contains_iff_mem.mpr (List.mem_map_of_mem ha)]
  exact Bool.false_ne_true

/-- Each layer is what is ready behind the layers before it. What is left is stuck. -/
def order (key : α → K) (ready : List K → List K → α → Bool) (arrange : List α → List α) (ordered pending : List α) :
    List α × List α :=
  if layer key ready ordered pending = [] then (ordered, pending)
  else order key ready arrange (ordered ++ arrange (layer key ready ordered pending))
    (without key (layer key ready ordered pending) pending)
termination_by pending.length
decreasing_by exact without_lt (List.filter_subset_self _) ‹_›

variable {key : α → K} {next : α → Option K} {ready : List K → List K → α → Bool} {arrange : List α → List α}
  {keys : List K} {items ordered pending : List α}

lemma not_circular_of_inOrder (hnodup : (items.map key).Nodup) (h : InOrder key next (items.map key) items) :
    ¬ Circular key next items := by
  have hlt : ∀ a b, Names key next items a b → (items.map key).idxOf b < (items.map key).idxOf a := by
    rintro _ b ⟨x, hx, rfl, hnext, hb⟩
    obtain ⟨before, after, rfl⟩ := List.append_of_mem hx
    have hbefore := h before x after rfl b hnext hb
    rw [List.map_append, List.map_cons] at hnodup ⊢
    have hfresh : key x ∉ before.map key := fun hin => (List.nodup_append.mp hnodup).2.2 _ hin _ List.mem_cons_self rfl
    rw [List.idxOf_append_of_mem hbefore, List.idxOf_append_of_notMem hfresh]
    exact (List.idxOf_lt_length_of_mem hbefore).trans_le (Nat.le_add_right _ _)
  rintro ⟨k, hk⟩
  have hless : ∀ a b, Relation.TransGen (Names key next items) a b → (items.map key).idxOf b < (items.map key).idxOf a := by
    intro a b hab
    induction hab with
    | single hab => exact hlt _ _ hab
    | tail _ hbc ih => exact (hlt _ _ hbc).trans ih
  exact lt_irrefl _ (hless k k hk)

lemma layer_perm (p : α → Bool) (hnodup : (pending.map key).Nodup) (harrange : ∀ l, (arrange l).Perm l) :
    (arrange (pending.filter p) ++ without key (pending.filter p) pending).Perm pending := by
  have hrest : without key (pending.filter p) pending = pending.filter fun a => !p a := by
    refine List.filter_congr fun a ha => congrArg _ (Bool.eq_iff_iff.mpr ?_)
    rw [List.contains_iff_mem, List.mem_map]
    constructor
    · rintro ⟨b, hb, hkey⟩
      obtain ⟨hb, hp⟩ := List.mem_filter.mp hb
      exact List.inj_on_of_nodup_map hnodup hb ha hkey ▸ hp
    · exact fun hp => ⟨a, List.mem_filter.mpr ⟨ha, hp⟩, rfl⟩
  rw [hrest]
  exact ((harrange _).append_right _).trans (List.filter_append_perm p pending)

lemma order_spec (ordered pending : List α) (hwaits : Waits ready next) (harrange : ∀ l, (arrange l).Perm l)
    (hnodup : ((ordered ++ pending).map key).Nodup) (hkeys : ∀ k, k ∈ keys ↔ k ∈ (ordered ++ pending).map key)
    (h : InOrder key next keys ordered) :
    ((order key ready arrange ordered pending).1 ++ (order key ready arrange ordered pending).2).Perm (ordered ++ pending) ∧
      InOrder key next keys (order key ready arrange ordered pending).1 ∧
      ∀ a ∈ (order key ready arrange ordered pending).2, ∃ k, next a = some k ∧
        k ∈ (order key ready arrange ordered pending).2.map key := by
  induction ordered, pending using order.induct key ready arrange with
  | case1 ordered pending hlayer =>
    rw [order, if_pos hlayer]
    refine ⟨List.Perm.refl _, h, fun a ha => ?_⟩
    have hnot : ready (ordered.map key) (pending.map key) a ≠ true := List.filter_eq_nil_iff.mp hlayer a ha
    rw [ne_eq, hwaits] at hnot
    obtain ⟨k, hwait⟩ := not_forall.mp hnot
    obtain ⟨hk, hwait⟩ := Classical.not_imp.mp hwait
    exact ⟨k, hk, not_not.mp (not_or.mp hwait).2⟩
  | case2 ordered pending hlayer ih =>
    have hpending : (pending.map key).Nodup := by
      rw [List.map_append] at hnodup
      exact hnodup.of_append_right
    have hall : ((ordered ++ arrange (layer key ready ordered pending)) ++
        without key (layer key ready ordered pending) pending).Perm (ordered ++ pending) := by
      rw [List.append_assoc]
      exact (layer_perm _ hpending harrange).append_left ordered
    have hready : ∀ a ∈ arrange (layer key ready ordered pending), ∀ k, next a = some k → k ∈ keys → k ∈ ordered.map key := by
      intro a ha k hk hin
      obtain ⟨-, ha⟩ := List.mem_filter.mp ((harrange _).mem_iff.mp ha)
      rcases (hwaits _ _ a).mp ha k hk with hplaced | hgone
      · exact hplaced
      · have hmem := (hkeys k).mp hin
        rw [List.map_append] at hmem
        exact (List.mem_append.mp hmem).resolve_right hgone
    obtain ⟨hsame, horder, hstuck⟩ := ih ((hall.map key).nodup_iff.mpr hnodup)
      (fun k => (hkeys k).trans (hall.map key).mem_iff.symm) (h.append hready)
    rw [order, if_neg hlayer]
    exact ⟨hsame.trans hall, horder, hstuck⟩

/-- All items are placed where none wait in a circle, each behind the one it waits for. -/
lemma order_complete (items : List α) (hwaits : Waits ready next) (harrange : ∀ l, (arrange l).Perm l)
    (hnodup : (items.map key).Nodup) :
    ((order key ready arrange [] items).2 = [] ↔ ¬ Circular key next items) ∧
    ((order key ready arrange [] items).2 = [] → (order key ready arrange [] items).1.Perm items ∧
      InOrder key next (items.map key) (order key ready arrange [] items).1) := by
  have hempty : InOrder key next (items.map key) [] := fun before a after hsplit => absurd hsplit (by simp)
  obtain ⟨hperm, horder, hstuck⟩ := order_spec [] items hwaits harrange hnodup (fun _ => Iff.rfl) hempty
  have hplaced : (order key ready arrange [] items).2 = [] → (order key ready arrange [] items).1.Perm items := fun hnil => by
    simpa [hnil] using hperm
  refine ⟨⟨fun hnil hcircular => ?_, fun hnone => ?_⟩, fun hnil => ⟨hplaced hnil, horder⟩⟩
  · have hsame := hplaced hnil
    have hin : InOrder key next ((order key ready arrange [] items).1.map key) (order key ready arrange [] items).1 :=
      fun before a after hsplit k hk hmem => horder before a after hsplit k hk ((hsame.map key).mem_iff.mp hmem)
    refine not_circular_of_inOrder ((hsame.map key).nodup_iff.mpr hnodup) hin ?_
    obtain ⟨k, hk⟩ := hcircular
    have hnames : Names key next items ≤ Names key next (order key ready arrange [] items).1 := by
      rintro a b ⟨x, hx, hkey, hnext, hb⟩
      exact ⟨x, hsame.mem_iff.mpr hx, hkey, hnext, (hsame.map key).mem_iff.mpr hb⟩
    exact ⟨k, Relation.TransGen.mono hnames k k hk⟩
  · by_contra hne
    exact hnone (circular_of_stuck (fun a ha => hperm.mem_iff.mp (List.mem_append_right _ ha)) hne hstuck)

end ContinuityLedger.Foundations.Layers
