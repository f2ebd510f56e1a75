import Mathlib.Data.List.Induction
import Mathlib.Data.List.MinMax
import Mathlib.Data.List.Nodup
import Mathlib.Logic.Function.Basic

/-! Event logs over keys: an event sets the value of its key or removes it, the newest event of a key
decides, and a view is what the log leaves behind. -/

namespace ContinuityLedger.Foundations.EventFold

variable {K V : Type*} [DecidableEq K]

abbrev View (K V : Type*) := K → Option V

/-- What remains after all events: for every key the value its newest event set. -/
def replay (es : List (K × Option V)) : View K V :=
  es.foldl (fun view e => Function.update view e.1 e.2) (fun _ => none)

@[simp] lemma replay_nil : replay ([] : List (K × Option V)) = fun _ => none := rfl

@[simp] lemma replay_append_singleton (es : List (K × Option V)) (k : K) (v : Option V) :
    replay (es ++ [(k, v)]) = Function.update (replay es) k v := by
  simp [replay]

variable {E : Type*} (key : E → K)

/-- The last element of a list with a given key. -/
def newest (k : K) (es : List E) : Option E := (es.filter (fun e => key e = k)).getLast?

@[simp] lemma newest_nil (k : K) : newest key k [] = none := rfl

lemma newest_append_singleton (k : K) (es : List E) (e : E) :
    newest key k (es ++ [e]) = if key e = k then some e else newest key k es := by
  by_cases hk : key e = k <;> simp [newest, hk]

lemma newest_key {k : K} {es : List E} {e : E} (h : newest key k es = some e) : key e = k := by
  have hm := List.mem_of_getLast? h
  simpa using (List.mem_filter.mp hm).2

lemma newest_mem {k : K} {es : List E} {e : E} (h : newest key k es = some e) : e ∈ es :=
  (List.mem_filter.mp (List.mem_of_getLast? h)).1

lemma newest_isSome {es : List E} {e : E} (h : e ∈ es) : (newest key (key e) es).isSome := by
  have hm : e ∈ es.filter (fun a => key a = key e) := List.mem_filter.mpr ⟨h, by simp⟩
  cases hx : newest key (key e) es with
  | none => exact absurd (List.getLast?_eq_none_iff.mp hx) (List.ne_nil_of_mem hm)
  | some _ => rfl

/-- A view holds for each key what the newest event of that key set. -/
lemma replay_eq_newest (value : E → Option V) (es : List E) (k : K) :
    replay (es.map fun e => (key e, value e)) k = (newest key k es).bind value := by
  induction es using List.reverseRecOn with
  | nil => rfl
  | append_singleton es e ih =>
    rw [List.map_append, List.map_singleton, replay_append_singleton, newest_append_singleton,
      Function.update_apply, ih]
    by_cases hk : k = key e
    · simp [hk]
    · simp [hk, Ne.symm hk]

omit [DecidableEq K] in
/-- In a list ordered by rank the highest-ranked element is the last one. -/
lemma argmax_eq_getLast? {L : Type*} [LinearOrder L] {rank : E → L} {es : List E}
    (h : es.Pairwise (fun a b => rank a < rank b)) : es.argmax rank = es.getLast? := by
  induction es using List.reverseRecOn with
  | nil => rfl
  | append_singleton es e ih =>
    obtain ⟨hes, -, hlt⟩ := List.pairwise_append.mp h
    rw [List.argmax_concat, ih hes, List.getLast?_concat]
    cases hx : es.getLast? with
    | none => rfl
    | some x => simp [hlt x (List.mem_of_getLast? hx) e (by simp)]

omit [DecidableEq K] in
/-- Where no rank occurs twice, the highest-ranked element is told by its rank alone. -/
lemma argmax_eq_some_iff {L : Type*} [LinearOrder L] {rank : E → L} {es : List E}
    (hn : (es.map rank).Nodup) {e : E} :
    es.argmax rank = some e ↔ e ∈ es ∧ ∀ f ∈ es, rank f ≤ rank e := by
  constructor
  · exact fun h => ⟨List.argmax_mem h, fun f hf => List.le_of_mem_argmax hf h⟩
  · rintro ⟨he, hmax⟩
    cases hx : es.argmax rank with
    | none => exact absurd he (by simp [List.argmax_eq_none.mp hx])
    | some f =>
      have hf := List.argmax_mem hx
      rw [List.inj_on_of_nodup_map hn hf he (le_antisymm (hmax f hf) (List.le_of_mem_argmax he hx))]

end ContinuityLedger.Foundations.EventFold
