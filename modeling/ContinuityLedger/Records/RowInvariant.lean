import ContinuityLedger.Records.NoLostUpdate

/-! A property of single rows that every statement keeps holds of every row that the row store ever commits. -/

namespace ContinuityLedger.Records.RowStore

open Foundations Foundations.Sha256 Ledger Evidence

variable {S : Type} [DecidableEq S] {rt : Runtime} {contentSha256 : String → Hex64} {tenant : String}

/-- What the store's statements make of rows with the property has it too. -/
structure Stable (contentSha256 : String → Hex64) (tenant : String) (P : Memory → Prop) : Prop where
  inserted : ∀ id clock data, (inserted contentSha256 tenant id clock data).checks = true →
    P (inserted contentSha256 tenant id clock data)
  assigned : ∀ new clock old version, P old → P { assign new clock old with version := version }
  unlinked : ∀ m, P m → P (unlinked m)

structure Holds (P : Memory → Prop) (t : Tables) : Prop where
  captured : Captured t
  rows : ∀ id m, t.memory id = some m → P m

structure AllHold (P : Memory → Prop) (sys : System S) : Prop where
  committed : Holds P sys.committed
  working : ∀ w ∈ sys.writer, Holds P w.working

variable {P : Memory → Prop}

lemma Holds.mem {t : Tables} (h : Holds P t) {m : Memory} (hm : m ∈ t.memories) : P m :=
  h.rows m.id m (KeyedTable.row_eq_some h.captured.memoryKey hm)

lemma insertRow_checks {env : Settings} {t t' : Tables} {new : Memory} (h : insertRow env t new = .ok t') :
    new.checks = true := by
  simp only [insertRow, bind_eq_ok, require_eq_ok] at h
  obtain ⟨_, _, _, hchecks, _⟩ := h
  exact hchecks

lemma Holds.insert (hP : Stable contentSha256 tenant P) {env : Settings} {t t' : Tables} {id : String}
    {clock : Calendar.Instant} {data : MemoryCreate} (h : Holds P t)
    (hi : insertRow env t (Records.inserted contentSha256 tenant id clock data) = .ok t') : Holds P t' := by
  refine ⟨insertRow_captured h.captured hi, fun j m hm => ?_⟩
  rw [(insertRow_effect hi).2] at hm
  split_ifs at hm
  · obtain rfl := Option.some.inj hm
    exact hP.inserted id clock data (insertRow_checks hi)
  · exact h.rows j m hm

lemma Holds.update (hP : Stable contentSha256 tenant P) {env : Settings} {t t' : Tables} {id : String}
    {clock : Calendar.Instant} {new : MemoryRecord} {old : Memory} (h : Holds P t) (hold : t.memory id = some old)
    (hu : updateRow env t id (assign new clock) = .ok t') : Holds P t' := by
  refine ⟨(updateRow_pending h.captured.pending hu).captured, fun j m hm => ?_⟩
  rw [updateRow_effect hold hu] at hm
  split_ifs at hm
  · obtain rfl := Option.some.inj hm
    exact hP.assigned new clock old _ (h.rows id old hold)
  · exact h.rows j m hm

lemma Holds.delete (hP : Stable contentSha256 tenant P) {env : Settings} {t t' : Tables} {id : String}
    {rank : String → ℕ} {old : Memory} (h : Holds P t) (hold : t.memory id = some old)
    (hd : deleteRow env t id rank = .ok t') : Holds P t' := by
  refine ⟨deleteRow_captured h.captured hd, fun j m hm => ?_⟩
  rw [deleteRow_effect h.captured.memoryKey hold hd] at hm
  split_ifs at hm
  obtain ⟨n, hn, rfl⟩ := Option.map_eq_some_iff.mp hm
  split_ifs
  · exact hP.unlinked n (h.rows j n hn)
  · exact h.rows j n hn

lemma AllHold.goes {sys : System S} (h : AllHold P sys) (s : S) (c : Call) : AllHold P (sys.goes s c).1 :=
  ⟨h.committed, h.working⟩

lemma AllHold.ends {sys : System S} (h : AllHold P sys) (s : S) (request : Request) (result : Except StoreError Answer) :
    AllHold P (sys.ends s request result).1 :=
  ⟨h.committed, fun w hw => h.working w (Option.filter_eq_some_iff.mp hw).1⟩

lemma AllHold.wrote {sys : System S} (h : AllHold P sys) {s : S} {c : Call} {t : Tables} {returned : Returned}
    (ht : Holds P t) : AllHold P (sys.wrote s c t returned).1 := by
  refine ⟨h.committed, fun w hw => ?_⟩
  obtain rfl : ⟨s, t⟩ = w := by simpa [System.wrote] using hw
  exact ht

lemma AllHold.published {sys : System S} (h : AllHold P sys) (s : S) :
    AllHold P { sys with committed := sys.published s } := by
  refine ⟨?_, h.working⟩
  unfold System.published
  cases hw : sys.writer with
  | none => exact h.committed
  | some w =>
    dsimp only
    split_ifs
    · exact h.working w hw
    · exact h.committed

lemma step_allHold (hP : Stable contentSha256 tenant P) {sys : System S} (h : AllHold P sys) {ev : Event S}
    {r : Stepped S} (hs : step rt contentSha256 tenant sys ev = some r) : AllHold P r.1 := by
  cases step_cases hs with
  | ends s request result _ => exact h.ends s request result
  | admitted | started | selected | checked | redrawn | missed | absent | again => exact h.goes _ _
  | inserted s set data attempt t _ _ hi => exact h.wrote (h.committed.insert hP hi)
  | updated s set id data attempt existing new old m t _ _ hold _ hu _ => exact h.wrote (h.committed.update hP hold hu)
  | deleted s set id attempt old t _ _ hold hd => exact h.wrote (h.committed.delete hP hold hd)
  | committed s request attempt returned _ => exact (h.published s).ends s request _
  | put now req =>
    unfold stepPut
    cases putEvidenceObject rt now sys.objects req with
    | error e => exact h
    | ok r => exact ⟨h.committed, h.working⟩

lemma run_allHold (hP : Stable contentSha256 tenant P) {sys sys' : System S} (h : AllHold P sys) {evs : List (Event S)}
    (hr : run rt contentSha256 tenant sys evs = some sys') : AllHold P sys' := by
  induction evs generalizing sys with
  | nil => exact Option.some.inj hr ▸ h
  | cons ev evs ih =>
    obtain ⟨r, hs, hr⟩ := Option.bind_eq_some_iff.mp hr
    exact ih (step_allHold hP h hs) hr

omit [DecidableEq S] in
lemma start_allHold {objects : List EvidenceObject} : AllHold P (System.start Tables.empty objects : System S) := by
  refine ⟨⟨empty_captured, fun id m hm => ?_⟩, fun w hw => ?_⟩
  · simp [System.start, Tables.empty, Tables.memory] at hm
  · simp [System.start] at hw

/-- The row validates, and its id names something. -/
def Sound (m : Memory) : Prop := (record m).isSome ∧ m.id ≠ ""

lemma sound_stable : Stable contentSha256 tenant Sound where
  inserted id clock data hchecks := by
    refine ⟨by simp [record, Records.inserted], fun hid => ?_⟩
    simp only [Memory.checks, Bool.and_eq_true, decide_eq_true_eq] at hchecks
    have hid' : id = "" := hid
    simp [Records.inserted, hid'] at hchecks
  assigned new clock old version h := ⟨by rw [record_assign]; rfl, h.2⟩
  unlinked m h := by
    obtain ⟨r, hr⟩ := Option.isSome_iff_exists.mp h.1
    obtain ⟨links, hlinks, rfl⟩ := Option.map_eq_some_iff.mp hr
    exact ⟨by simp [record, Ledger.unlinked, hlinks], h.2⟩

/-- Whatever is committed validates. -/
lemma run_sound {objects : List EvidenceObject} {evs : List (Event S)} {sys : System S}
    (hr : run rt contentSha256 tenant (System.start Tables.empty objects) evs = some sys) {m : Memory}
    (hm : m ∈ sys.committed.memories) : Sound m :=
  (run_allHold sound_stable start_allHold hr).committed.mem hm

end ContinuityLedger.Records.RowStore
