import ContinuityLedger.Records.Latest
import ContinuityLedger.Records.RowInvariant

/-! What the newest-first listings return, where every timestamp can be read and every row validates. -/

namespace ContinuityLedger.Records

open Foundations Foundations.Sha256 Ledger Evidence

namespace JarvisStore

/-- A record with the place that its timestamp gives it. -/
def Placed (m : MemoryRecord) (p : Place) : Prop := ∃ t, Timestamps.parseUtc m.createdAt = some t ∧ p = toLex (t, m.id)

lemma place_eq {m : MemoryRecord} {p : Place} : place m = .ok p ↔ Placed m p := by
  unfold place Placed
  cases Timestamps.parseUtc m.createdAt with
  | none => simp
  | some t => simp [eq_comm]

lemma Placed.unique {m : MemoryRecord} {p q : Place} (hp : Placed m p) (hq : Placed m q) : p = q := by
  obtain ⟨t, ht, rfl⟩ := hp
  obtain ⟨u, hu, rfl⟩ := hq
  rw [Option.some.inj (ht.symm.trans hu)]

/-- The newest of the records that supersede an id. -/
def Newest (memories : List MemoryRecord) (id : String) (p : Place) : Prop :=
  (∃ s ∈ memories, target s.supersedes = some id ∧ Placed s p) ∧
    ∀ s ∈ memories, target s.supersedes = some id → ∀ q, Placed s q → q ≤ p

/-- What the successors of some records are noted as. -/
structure Noted (memories : List MemoryRecord) (d : Dict String Place) : Prop where
  newest : ∀ id p, d.get id = some p → Newest memories id p
  none : ∀ id, d.get id = none → ∀ s ∈ memories, target s.supersedes ≠ some id

lemma Newest.snoc {memories : List MemoryRecord} {id : String} {q : Place} (h : Newest memories id q) {m : MemoryRecord}
    (hm : ∀ p, target m.supersedes = some id → Placed m p → p ≤ q) : Newest (memories ++ [m]) id q := by
  obtain ⟨⟨s, hs, hsid, hsq⟩, hmax⟩ := h
  refine ⟨⟨s, List.mem_append_left _ hs, hsid, hsq⟩, fun u hu huid p hp => ?_⟩
  rcases List.mem_append.mp hu with hu | hu
  · exact hmax u hu huid p hp
  · obtain rfl := List.mem_singleton.mp hu
    exact hm p huid hp

lemma noteSuccessor_noted {memories : List MemoryRecord} {d : Dict String Place} (h : Noted memories d)
    {m : MemoryRecord} {p : Place} (hp : Placed m p) :
    ∃ d', noteSuccessor d m = .ok d' ∧ Noted (memories ++ [m]) d' := by
  unfold noteSuccessor
  cases ht : target m.supersedes with
  | none =>
    refine ⟨d, rfl, fun id q hq => (h.newest id q hq).snoc fun _ hid => ?_, fun id hid s hs => ?_⟩
    · rw [ht] at hid
      cases hid
    · rcases List.mem_append.mp hs with hs | hs
      · exact h.none id hid s hs
      · rw [List.mem_singleton.mp hs, ht]
        simp
  | some t =>
    rw [place_eq.mpr hp]
    by_cases hnew : (d.get t).all (· < p) = true
    · refine ⟨d.set t p, by simp [hnew, bind, Except.bind, pure, Except.pure], fun id q hq => ?_, fun id hid s hs => ?_⟩
      · rw [Dict.get_set] at hq
        by_cases hid : t = id
        · subst hid
          obtain rfl : p = q := by simpa using hq
          refine ⟨⟨m, by simp, ht, hp⟩, fun s hs hst r hr => ?_⟩
          rcases List.mem_append.mp hs with hs | hs
          · cases hd : d.get t with
            | none => exact absurd hst (h.none t hd s hs)
            | some q =>
              have hlt : q < p := by simpa [hd] using hnew
              exact ((h.newest t q hd).2 s hs hst r hr).trans hlt.le
          · obtain rfl := List.mem_singleton.mp hs
            exact (hr.unique hp).le
        · rw [if_neg hid] at hq
          refine (h.newest id q hq).snoc fun _ hmid => absurd ?_ hid
          exact Option.some.inj (ht.symm.trans hmid)
      · rw [Dict.get_set] at hid
        by_cases hti : t = id
        · simp [hti] at hid
        · rw [if_neg hti] at hid
          rcases List.mem_append.mp hs with hs | hs
          · exact h.none id hid s hs
          · rw [List.mem_singleton.mp hs, ht]
            simpa using hti
    · obtain ⟨q₀, hq₀, hle⟩ : ∃ q₀, d.get t = some q₀ ∧ p ≤ q₀ := by
        cases hd : d.get t with
        | none => simp [hd] at hnew
        | some q => exact ⟨q, rfl, by simpa [hd] using hnew⟩
      refine ⟨d, by simp [hnew, bind, Except.bind, pure, Except.pure], fun id q hq => (h.newest id q hq).snoc fun r hmid hr => ?_,
        fun id hid s hs => ?_⟩
      · obtain rfl : t = id := Option.some.inj (ht.symm.trans hmid)
        obtain rfl : q₀ = q := Option.some.inj (hq₀.symm.trans hq)
        exact (hr.unique hp).le.trans hle
      · rcases List.mem_append.mp hs with hs | hs
        · exact h.none id hid s hs
        · rw [List.mem_singleton.mp hs, ht]
          rintro hti
          obtain rfl := Option.some.inj hti
          rw [hq₀] at hid
          cases hid

lemma successors_noted {memories : List MemoryRecord} (h : ∀ m ∈ memories, ∃ p, Placed m p) :
    ∃ d, successors memories = .ok d ∧ Noted memories d := by
  unfold successors
  induction memories using List.reverseRecOn with
  | nil => exact ⟨[], rfl, ⟨fun id p hp => (by simp at hp), fun id _ s hs => (by simp at hs)⟩⟩
  | append_singleton memories m ih =>
    obtain ⟨d, hd, hnoted⟩ := ih fun n hn => h n (List.mem_append_left _ hn)
    obtain ⟨p, hp⟩ := h m (by simp)
    obtain ⟨d', hd', hnoted'⟩ := noteSuccessor_noted hnoted hp
    refine ⟨d', ?_, hnoted'⟩
    rw [List.foldlM_append, hd]
    simp [hd', bind, Except.bind, pure, Except.pure]

/-- A record whose timestamp can be read. -/
def Readable (m : MemoryRecord) : Prop := (Timestamps.parseUtc m.createdAt).isSome

def placeOf (m : MemoryRecord) : Place := toLex ((Timestamps.parseUtc m.createdAt).getD 0, m.id)

lemma Readable.placed {m : MemoryRecord} (h : Readable m) : Placed m (placeOf m) := by
  obtain ⟨t, ht⟩ := Option.isSome_iff_exists.mp h
  exact ⟨t, ht, by rw [placeOf, ht, Option.getD_some]⟩

def latestRow (d : Dict String Place) (m : MemoryRecord) : LatestRow :=
  ⟨placeOf m, m, (d.get m.id).map fun s : Place => (ofLex s).2⟩

@[simp] lemma latestRow_place (d : Dict String Place) (m : MemoryRecord) : (latestRow d m).place = placeOf m := rfl

lemma latestRows_eq {memories : List MemoryRecord} (h : ∀ m ∈ memories, Readable m) (after : Option Place)
    (f : LatestFilter) : ∃ d, Noted memories d ∧ latestRows memories after f =
      .ok (((memories.filter fun m => (latestRow d m).within after f && passing d f m).mergeSort fun a b =>
        newerFirst (placeOf a) (placeOf b)).map (latestRow d)) := by
  obtain ⟨d, hd, hnoted⟩ := successors_noted fun m hm => ⟨_, (h m hm).placed⟩
  refine ⟨d, hnoted, ?_⟩
  have hrows : (memories.filter (passing d f)).mapM (readRow d) = .ok ((memories.filter (passing d f)).map (latestRow d)) := by
    refine Checks.mapM_eq_map fun m hm => ?_
    rw [readRow, place_eq.mpr (h m (List.mem_filter.mp hm).1).placed]
    rfl
  rw [latestRows, hd]
  simp only [bind, Except.bind, pure, Except.pure, hrows]
  have hsort := List.map_mergeSort (f := latestRow d)
    (l := memories.filter fun m => (latestRow d m).within after f && passing d f m)
    (r := fun a b => newerFirst (placeOf a) (placeOf b)) (s := fun a b => newerFirst a.place b.place)
    fun _ _ _ _ => by simp only [latestRow_place]
  rw [hsort, List.filter_map, List.filter_filter]
  simp only [Function.comp_def]

end JarvisStore

def Visible (m : MemoryRecord) : Prop := m.status ≠ .archived ∧ m.sourceAgent ≠ twinAgent

instance (m : MemoryRecord) : Decidable (Visible m) := inferInstanceAs (Decidable (_ ∧ _))

lemma default_passes {type : MemoryType} {sourceAgent : String} {status : Status} :
    LatestFilter.default.passes type sourceAgent status = true ↔ status ≠ .archived ∧ sourceAgent ≠ twinAgent := by
  simp [LatestFilter.default, LatestFilter.passes, and_comm]

/-- What a listing by default has to hold: the visible records that nothing supersedes. -/
def ListsCurrent (memories : List MemoryRecord) (rows : List (MemoryRecord × Option String)) : Prop :=
  ∀ m, (∃ s, (m, s) ∈ rows) ↔ m ∈ memories ∧ Visible m ∧ ∀ s ∈ memories, target s.supersedes ≠ some m.id

namespace JarvisStore

lemma Noted.isNone {memories : List MemoryRecord} {d : Dict String Place} (h : Noted memories d) (id : String) :
    (d.get id).isNone = true ↔ ∀ s ∈ memories, target s.supersedes ≠ some id := by
  constructor
  · intro hd
    exact h.none id (Option.isNone_iff_eq_none.mp hd)
  · intro hs
    cases hd : d.get id with
    | none => rfl
    | some p =>
      obtain ⟨⟨s, hm, hsid, -⟩, -⟩ := h.newest id p hd
      exact absurd hsid (hs s hm)

lemma listLatest_default {memories : List MemoryRecord} (h : ∀ m ∈ memories, Readable m) {limit : ℤ}
    (hlimit : memories.length ≤ limit) :
    ∃ rows, listLatest memories limit none .default = .ok rows ∧ ListsCurrent memories rows := by
  obtain ⟨d, hnoted, hrows⟩ := latestRows_eq h none .default
  have hall : ∀ xs : List MemoryRecord, xs.length ≤ memories.length → (xs.map (latestRow d)).take limit.toNat = xs.map (latestRow d) :=
    fun xs hxs => List.take_of_length_le (by rw [List.length_map]; omega)
  refine ⟨_, by rw [listLatest, hrows]; rfl, fun m => ?_⟩
  rw [hall _ (by rw [List.length_mergeSort]; exact List.length_filter_le ..)]
  simp only [List.map_map, List.mem_map, List.mem_mergeSort, List.mem_filter, Function.comp_apply, Prod.mk.injEq,
    Bool.and_eq_true, passing, default_passes, Visible]
  constructor
  · rintro ⟨s, n, ⟨hn, -, hvis, hsucc⟩, rfl, -⟩
    rw [LatestFilter.default, Bool.false_or] at hsucc
    exact ⟨hn, hvis, (hnoted.isNone n.id).mp hsucc⟩
  · rintro ⟨hm, hvis, hsucc⟩
    refine ⟨_, m, ⟨hm, rfl, hvis, ?_⟩, rfl, rfl⟩
    rw [LatestFilter.default, Bool.false_or]
    exact (hnoted.isNone m.id).mpr hsucc

end JarvisStore

namespace RowStore

lemma readRecord_ok {m : Memory} {r : MemoryRecord} : readRecord m = .ok r ↔ record m = some r := by
  unfold readRecord
  cases record m <;> simp

/-- A row that validates, as a record. -/
lemma record_fields {m : Memory} {r : MemoryRecord} (h : record m = some r) :
    r.id = m.id ∧ r.type = m.type ∧ r.sourceAgent = m.sourceAgent ∧ r.status = m.status ∧
      r.supersedes = m.supersedes := by
  obtain ⟨links, -, rfl⟩ := Option.map_eq_some_iff.mp h
  exact ⟨rfl, rfl, rfl, rfl, rfl⟩

lemma target_eq_some {s : Option String} {id : String} (hid : id ≠ "") : target s = some id ↔ s = some id := by
  cases s with
  | none => simp [target]
  | some t =>
    simp only [target, Option.filter_some]
    split_ifs with ht
    · rfl
    · simp only [ne_eq, decide_not, Bool.not_eq_eq_eq_not, Bool.not_true, decide_eq_false_iff_not, not_not] at ht
      simp [ht, Ne.symm hid]

lemma listLatest_eq {rows : List Memory} {limit : ℤ} {after : Option Place} {f : LatestFilter}
    (htexts : ∀ s ∈ latestTexts after f, '\x00' ∉ s.toList) (hlimit : limit < 2 ^ 63) :
    listLatest rows limit after f = ((latestRows rows after f).take limit.toNat).mapM (readLatest rows) := by
  have hchecked : (latestTexts after f).mapM checkText = .ok ((latestTexts after f).map fun _ => ()) :=
    Checks.mapM_eq_map fun s hs => if_neg (htexts s hs)
  rw [listLatest, hchecked, checkLimit, if_pos hlimit]
  rfl

lemma readLatest_ok {rows : List Memory} {m : Memory} {r : MemoryRecord} {s : Option String} :
    readLatest rows m = .ok (r, s) ↔ record m = some r ∧ supersededBy rows m.id = s := by
  unfold readLatest readRecord
  cases record m <;> simp [bind, Except.bind, pure, Except.pure]

lemma mem_latestRows_default {rows : List Memory} {m : Memory} : m ∈ latestRows rows none .default ↔
    m ∈ rows ∧ (m.status ≠ .archived ∧ m.sourceAgent ≠ twinAgent) ∧ ∀ s ∈ rows, s.supersedes ≠ some m.id := by
  rw [latestRows, List.mem_mergeSort, List.mem_filter, latestWhere, Bool.and_eq_true, Bool.and_eq_true, Bool.and_eq_true,
    default_passes]
  simp [LatestFilter.default]

/-- A row is unsuperseded as its record is. -/
lemma unsuperseded_iff {rows : List Memory} (h : ∀ m ∈ rows, Sound m) {id : String} (hid : id ≠ "") :
    (∀ s ∈ rows.filterMap record, target s.supersedes ≠ some id) ↔ ∀ n ∈ rows, n.supersedes ≠ some id := by
  constructor
  · intro hs n hn
    obtain ⟨r, hr⟩ := Option.isSome_iff_exists.mp (h n hn).1
    have hr' := hs r (List.mem_filterMap.mpr ⟨n, hn, hr⟩)
    rwa [Ne, target_eq_some hid, (record_fields hr).2.2.2.2] at hr'
  · intro hn s hs
    obtain ⟨n, hn', hr⟩ := List.mem_filterMap.mp hs
    rw [Ne, target_eq_some hid, (record_fields hr).2.2.2.2]
    exact hn n hn'

lemma listLatest_default {rows : List Memory} (h : ∀ m ∈ rows, Sound m) {limit : ℤ} (hlimit : rows.length ≤ limit)
    (hbig : limit < 2 ^ 63) :
    ∃ result, listLatest rows limit none .default = .ok result ∧ ListsCurrent (rows.filterMap record) result := by
  have hall : (latestRows rows none .default).take limit.toNat = latestRows rows none .default := by
    refine List.take_of_length_le ?_
    have hlen := List.length_filter_le (latestWhere rows none .default) rows
    rw [latestRows, List.length_mergeSort]
    omega
  have hread : ∀ m ∈ latestRows rows none .default, ∃ e, readLatest rows m = .ok e := by
    intro m hm
    obtain ⟨r, hr⟩ := Option.isSome_iff_exists.mp (h m (mem_latestRows_default.mp hm).1).1
    exact ⟨_, readLatest_ok.mpr ⟨hr, rfl⟩⟩
  obtain ⟨result, hresult⟩ := Checks.mapM_exists hread
  obtain ⟨hthere, hback⟩ := Checks.mapM_ok_iff hresult
  have htexts : ∀ s ∈ latestTexts none .default, '\x00' ∉ s.toList := by simp [latestTexts, LatestFilter.default]
  refine ⟨result, by rw [listLatest_eq htexts hbig, hall, hresult], fun r => ?_⟩
  constructor
  · rintro ⟨s, hs⟩
    obtain ⟨m, hm, hread⟩ := hback _ hs
    obtain ⟨hr, -⟩ := readLatest_ok.mp hread
    obtain ⟨hid, -, hagent, hstatus, -⟩ := record_fields hr
    obtain ⟨hmem, hvis, hsucc⟩ := mem_latestRows_default.mp hm
    refine ⟨List.mem_filterMap.mpr ⟨m, hmem, hr⟩, by rwa [Visible, hstatus, hagent], ?_⟩
    rw [hid]
    exact (unsuperseded_iff h (h m hmem).2).mpr hsucc
  · rintro ⟨hr, hvis, hsucc⟩
    obtain ⟨m, hmem, hr⟩ := List.mem_filterMap.mp hr
    obtain ⟨hid, -, hagent, hstatus, -⟩ := record_fields hr
    rw [Visible, hstatus, hagent] at hvis
    rw [hid] at hsucc
    have hm := mem_latestRows_default.mpr ⟨hmem, hvis, (unsuperseded_iff h (h m hmem).2).mp hsucc⟩
    obtain ⟨⟨r', s⟩, hin, hread⟩ := hthere m hm
    obtain rfl : r = r' := Option.some.inj (hr.symm.trans (readLatest_ok.mp hread).1)
    exact ⟨s, hin⟩

end RowStore

end ContinuityLedger.Records
