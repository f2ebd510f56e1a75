import ContinuityLedger.Foundations.Dict

/-! A process that answers the calls of several users from one state: when what a user is answered depends on the user's own calls
alone. And dictionaries cut down to the keys of one user. -/

namespace ContinuityLedger.Foundations

namespace Noninterference

variable {U A S O W : Type}

/-- What each call is answered, with whose it was. -/
def answers (step : S → U → A → S × O) (s : S) : List (U × A) → List (U × O)
  | [] => []
  | (u, a) :: calls => (u, (step s u a).2) :: answers step (step s u a).1 calls

/-- What a user sees of the state decides the answers to the user's calls and what the user sees then; the calls of the others
change none of it. -/
structure Apart (step : S → U → A → S × O) (Fair : U → A → Prop) (u : U) (view : S → W) : Prop where
  answer : ∀ {s s' a}, Fair u a → view s = view s' → (step s u a).2 = (step s' u a).2
  own : ∀ {s s' a}, Fair u a → view s = view s' → view (step s u a).1 = view (step s' u a).1
  others : ∀ {s v a}, v ≠ u → Fair v a → view (step s v a).1 = view s

variable [DecidableEq U] {step : S → U → A → S × O} {Fair : U → A → Prop} {u : U} {view : S → W}

def ofUser {B : Type} (u : U) (l : List (U × B)) : List (U × B) := l.filter fun c => c.1 = u

/-- A user is answered as if nobody else had called. -/
lemma Apart.answers_eq (h : Apart step Fair u view) {s s' : S} (hview : view s = view s') {calls : List (U × A)}
    (hfair : ∀ c ∈ calls, Fair c.1 c.2) : ofUser u (answers step s calls) = answers step s' (ofUser u calls) := by
  induction calls generalizing s s' with
  | nil => rfl
  | cons c calls ih =>
    obtain ⟨v, a⟩ := c
    obtain ⟨hc, hcalls⟩ := List.forall_mem_cons.mp hfair
    by_cases hv : v = u
    · subst hv
      rw [answers, ofUser, List.filter_cons_of_pos (by simp), ofUser, List.filter_cons_of_pos (by simp), answers,
        h.answer hc hview]
      exact congrArg _ (ih (h.own hc hview) hcalls)
    · rw [answers, ofUser, List.filter_cons_of_neg (by simpa using hv), ofUser, List.filter_cons_of_neg (by simpa using hv)]
      exact ih ((h.others hv hc).trans hview) hcalls

end Noninterference

namespace Dict

variable {K V : Type} [DecidableEq K]

/-- The entries of some of the keys, in their order. -/
def restrict (mine : K → Bool) (d : Dict K V) : Dict K V := d.filter fun e => mine e.1

def erase (d : Dict K V) (k : K) : Dict K V := KeyedTable.remove Prod.fst k d

variable {mine : K → Bool} {d : Dict K V} {k : K} {v : V}

lemma get_restrict (h : mine k = true) : get (restrict mine d) k = get d k := by
  rw [get, KeyedTable.row, restrict, List.find?_filter, get, KeyedTable.row]
  refine congrArg (Option.map Prod.snd) (congrArg (d.find? ·) (funext fun e => ?_))
  by_cases he : e.1 = k
  · simp [he, h]
  · simp [he]

lemma restrict_erase (mine : K → Bool) (d : Dict K V) (k : K) : restrict mine (erase d k) = erase (restrict mine d) k :=
  List.filter_comm ..

lemma restrict_erase_other (h : mine k = false) : restrict mine (erase d k) = restrict mine d := by
  rw [restrict_erase, erase, KeyedTable.remove, List.filter_eq_self]
  intro e he
  refine decide_eq_true fun hk => ?_
  have hmine := (List.mem_filter.mp he).2
  rw [hk, h] at hmine
  cases hmine

lemma restrict_replace (mine : K → Bool) (d : Dict K V) (k : K) (v : V) :
    restrict mine (KeyedTable.replace Prod.fst (k, v) d) = KeyedTable.replace Prod.fst (k, v) (restrict mine d) := by
  rw [restrict, KeyedTable.replace, List.filter_map, restrict, KeyedTable.replace]
  refine congrArg (List.map _) (List.filter_congr fun e _ => ?_)
  by_cases he : e.1 = k
  · simp [he]
  · simp [he]

lemma mem_keys_restrict : k ∈ (restrict mine d).map Prod.fst ↔ k ∈ d.map Prod.fst ∧ mine k = true := by
  constructor
  · intro hk
    obtain ⟨e, he, rfl⟩ := List.mem_map.mp hk
    obtain ⟨hin, hmine⟩ := List.mem_filter.mp he
    exact ⟨List.mem_map_of_mem hin, hmine⟩
  · rintro ⟨hk, hmine⟩
    obtain ⟨e, he, rfl⟩ := List.mem_map.mp hk
    exact List.mem_map_of_mem (List.mem_filter.mpr ⟨he, hmine⟩)

lemma restrict_set (h : mine k = true) : restrict mine (set d k v) = set (restrict mine d) k v := by
  by_cases hk : k ∈ d.map Prod.fst
  · have hrow : (KeyedTable.row Prod.fst k d).isSome = true := KeyedTable.row_isSome.mpr hk
    have hrow' : (KeyedTable.row Prod.fst k (restrict mine d)).isSome = true :=
      KeyedTable.row_isSome.mpr (mem_keys_restrict.mpr ⟨hk, h⟩)
    rw [set, KeyedTable.upsert, if_pos hrow, restrict_replace, set, KeyedTable.upsert, if_pos hrow']
  · have hk' : k ∉ (restrict mine d).map Prod.fst := fun hin => hk (mem_keys_restrict.mp hin).1
    rw [set_of_not_has hk, set_of_not_has hk', restrict, List.filter_append, List.filter_singleton]
    simp only [h]
    rfl

lemma restrict_set_other (h : mine k = false) : restrict mine (set d k v) = restrict mine d := by
  by_cases hk : k ∈ d.map Prod.fst
  · have hrow : (KeyedTable.row Prod.fst k d).isSome = true := KeyedTable.row_isSome.mpr hk
    rw [set, KeyedTable.upsert, if_pos hrow, restrict_replace]
    refine (List.map_congr_left fun e he => if_neg fun hek => ?_).trans (List.map_id _)
    have hmine := (List.mem_filter.mp he).2
    rw [hek, h] at hmine
    cases hmine
  · rw [set_of_not_has hk, restrict, List.filter_append, List.filter_singleton]
    simp only [h]
    exact List.append_nil _

end Dict

end ContinuityLedger.Foundations
