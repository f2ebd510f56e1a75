import ContinuityLedger.Records.NoLostUpdate

/-! Clause V over whole runs: in either store, whatever is created, updated, archived, taken out of the archive and
deleted, a record that is not archived has an allowed type and the evidence that its type needs. -/

namespace ContinuityLedger.Records

open Foundations Foundations.Sha256 Ledger Evidence

variable {rt : Runtime} {contentSha256 : String → Hex64} {tenant : String}

lemma admitted_congr {resolve : Resolver} {m n : MemoryRecord} (hs : n.status = m.status) (ht : n.type = m.type)
    (he : n.evidence = m.evidence) (h : Admitted resolve m) : Admitted resolve n := by
  intro hn
  rw [hs] at hn
  rw [ht, he]
  exact h hn

namespace JarvisStore

structure State where
  memories : List MemoryRecord
  objects : List EvidenceObject

inductive Op
  | create (sur : Surroundings) (data : MemoryCreate)
  | update (sur : Surroundings) (id : String) (data : MemoryUpdate)
  | delete (sur : Surroundings) (id : String)
  | putEvidence (now : String) (req : EvidenceObjectCreate)

/-- The call is made in the hard mode `enforce`. -/
def Op.enforced : Op → Bool
  | .create sur _ => !sur.gate.isOff
  | .update sur _ _ => !sur.gate.isOff
  | _ => true

def step (rt : Runtime) (contentSha256 : String → Hex64) (st : State) : Op → State
  | .create sur data =>
    { st with memories := (createMemory contentSha256 sur (resolveEvidence rt st.objects) st.memories data).2 }
  | .update sur id data =>
    { st with memories := (updateMemory contentSha256 sur (resolveEvidence rt st.objects) st.memories id data).2 }
  | .delete sur id => { st with memories := (deleteMemory sur st.memories id).2 }
  | .putEvidence now req =>
    match putEvidenceObject rt now st.objects req with
    | .error _ => st
    | .ok (_, _, after) => { st with objects := after }

def run (rt : Runtime) (contentSha256 : String → Hex64) (st : State) (ops : List Op) : State :=
  ops.foldl (step rt contentSha256) st

structure Upheld (rt : Runtime) (st : State) : Prop where
  intact : Intact rt st.objects
  admitted : ∀ m ∈ st.memories, Admitted (resolveEvidence rt st.objects) m

lemma createMemory_admitted {sur : Surroundings} {resolve : Resolver} {memories : List MemoryRecord}
    {data : MemoryCreate} (hgate : sur.gate.isOff = false) (h : ∀ m ∈ memories, Admitted resolve m) :
    ∀ m ∈ (createMemory contentSha256 sur resolve memories data).2, Admitted resolve m := by
  intro m hm
  unfold createMemory at hm
  cases hc : checkCreate sur resolve memories data with
  | error e =>
    rw [hc] at hm
    exact h m hm
  | ok u =>
    rw [hc] at hm
    obtain ⟨-, -, hrest⟩ := Checks.bind_ok hc
    obtain ⟨warnings, hjudged, -⟩ := Checks.bind_ok hrest
    have hnew : Admitted resolve (created contentSha256 sur data) := fun _ => gateCreate_admits hgate hjudged
    have hafter : ∀ n ∈ KeyedTable.upsert MemoryRecord.id (created contentSha256 sur data) memories, Admitted resolve n := by
      intro n hn
      rcases KeyedTable.mem_upsert _ hn with rfl | hn
      · exact hnew
      · exact h n hn
    dsimp only at hm
    split_ifs at hm
    · exact hafter m hm
    · exact hafter m (List.mem_filter.mp hm).1

lemma updateMemory_admitted {sur : Surroundings} {resolve : Resolver} {memories : List MemoryRecord} {id : String}
    {data : MemoryUpdate} (hgate : sur.gate.isOff = false) (h : ∀ m ∈ memories, Admitted resolve m) :
    ∀ m ∈ (updateMemory contentSha256 sur resolve memories id data).2, Admitted resolve m := by
  intro m hm
  unfold updateMemory at hm
  cases hget : get memories id with
  | none =>
    rw [hget] at hm
    exact h m hm
  | some existing =>
    cases hc : checkUpdate sur.gate resolve existing data >>= fun _ => checkSupersedes memories data.supersedes with
    | error e =>
      simp only [hget, hc] at hm
      exact h m hm
    | ok u =>
      simp only [hget, hc] at hm
      obtain ⟨_, hcheck, _⟩ := Checks.bind_ok hc
      obtain ⟨_, -, hcheck⟩ := Checks.bind_ok hcheck
      obtain ⟨_, -, hcheck⟩ := Checks.bind_ok hcheck
      obtain ⟨warnings, hjudged, -⟩ := Checks.bind_ok hcheck
      have hnew : Admitted resolve (updated contentSha256 sur existing data) :=
        admitted_congr rfl rfl rfl (gateUpdate_admits hgate (h existing (KeyedTable.row_mem hget)) hjudged)
      split_ifs at hm
      · obtain ⟨n, hn, rfl⟩ := List.mem_map.mp hm
        split_ifs
        · exact hnew
        · exact h n hn
      · exact h m hm

lemma deleteMemory_admitted {sur : Surroundings} {resolve : Resolver} {memories : List MemoryRecord} {id : String}
    (h : ∀ m ∈ memories, Admitted resolve m) : ∀ m ∈ (deleteMemory sur memories id).2, Admitted resolve m := by
  intro m hm
  unfold deleteMemory at hm
  cases hget : get memories id with
  | none =>
    rw [hget] at hm
    exact h m hm
  | some removed =>
    simp only [hget] at hm
    split_ifs at hm
    · exact h m (List.mem_filter.mp hm).1
    · rcases List.mem_append.mp hm with hm | hm
      · exact h m (List.mem_filter.mp hm).1
      · exact List.mem_singleton.mp hm ▸ h removed (KeyedTable.row_mem hget)

lemma step_upheld {st : State} (h : Upheld rt st) {op : Op} (hop : op.enforced = true) :
    Upheld rt (step rt contentSha256 st op) := by
  cases op with
  | create sur data =>
    exact ⟨h.intact, createMemory_admitted (by simpa [Op.enforced] using hop) h.admitted⟩
  | update sur id data =>
    exact ⟨h.intact, updateMemory_admitted (by simpa [Op.enforced] using hop) h.admitted⟩
  | delete sur id => exact ⟨h.intact, deleteMemory_admitted h.admitted⟩
  | putEvidence now req =>
    rw [step]
    cases hput : putEvidenceObject rt now st.objects req with
    | error e => exact h
    | ok r =>
      obtain ⟨obj, wasCreated, after⟩ := r
      obtain ⟨hintact, more, rfl⟩ := putEvidenceObject_intact h.intact hput
      exact ⟨hintact, fun m hm => (h.admitted m hm).extends (resolveEvidence_extends hintact)⟩

lemma run_upheld {st : State} (h : Upheld rt st) {ops : List Op} (hops : ∀ op ∈ ops, op.enforced = true) :
    Upheld rt (run rt contentSha256 st ops) := by
  unfold run
  induction ops generalizing st with
  | nil => exact h
  | cons op ops ih =>
    exact ih (step_upheld h (hops op List.mem_cons_self)) fun o ho => hops o (List.mem_cons_of_mem _ ho)

end JarvisStore

namespace RowStore

variable {S : Type} [DecidableEq S]

/-- A row validates, and its record is admitted. -/
def RowAdmitted (resolve : Resolver) (m : Memory) : Prop := ∃ r, record m = some r ∧ Admitted resolve r

def AllAdmitted (resolve : Resolver) (t : Tables) : Prop := ∀ id m, t.memory id = some m → RowAdmitted resolve m

/-- What the calls under way carry is as admissible as what is stored. -/
def CallAdmitted (resolve : Resolver) (c : Call) : Prop :=
  match c.request, c.progress with
  | .create data, .inserting =>
    data.type ∈ allowedTypes ∧ evidenceReason data.type data.evidence resolve = .ok none
  | _, .checking existing => Admitted resolve existing
  | _, .updating _ new => Admitted resolve new
  | _, _ => True

def Event.enforced : Event S → Bool
  | .call _ _ gate => !gate.isOff
  | .check _ gate => !gate.isOff
  | _ => true

/-- Tables in which everything is admitted and the bookkeeping is in order. -/
structure Good (resolve : Resolver) (t : Tables) : Prop where
  captured : Captured t
  admitted : AllAdmitted resolve t

structure Upheld (rt : Runtime) (sys : System S) : Prop where
  intact : Intact rt sys.objects
  committed : Good (resolveEvidence rt sys.objects) sys.committed
  working : ∀ w ∈ sys.writer, Good (resolveEvidence rt sys.objects) w.working
  calls : ∀ s c, sys.calls s = some c → CallAdmitted (resolveEvidence rt sys.objects) c

lemma RowAdmitted.unlinked {resolve : Resolver} {m : Memory} (h : RowAdmitted resolve m) :
    RowAdmitted resolve (unlinked m) := by
  obtain ⟨r, hr, hadm⟩ := h
  obtain ⟨links, hlinks, rfl⟩ := Option.map_eq_some_iff.mp hr
  refine ⟨_, Option.map_eq_some_iff.mpr ⟨links, hlinks, rfl⟩, ?_⟩
  exact admitted_congr rfl rfl rfl hadm

lemma CallAdmitted.extends {r r' : Resolver} (h : r.Extends r') {c : Call} (hc : CallAdmitted r c) :
    CallAdmitted r' c := by
  unfold CallAdmitted at hc ⊢
  split at hc
  · exact ⟨hc.1, evidenceReason_extends h hc.2⟩
  · exact hc.extends h
  · exact hc.extends h
  · trivial

lemma Good.extends {r r' : Resolver} (h : r.Extends r') {t : Tables} (ht : Good r t) : Good r' t := by
  refine ⟨ht.captured, fun id m hm => ?_⟩
  obtain ⟨m', hm', hadm⟩ := ht.admitted id m hm
  exact ⟨m', hm', hadm.extends h⟩

lemma insertRow_good {resolve : Resolver} {env : Settings} {t t' : Tables} {id : String} {clock : Calendar.Instant}
    {data : MemoryCreate} (h : Good resolve t)
    (hdata : data.type ∈ allowedTypes ∧ evidenceReason data.type data.evidence resolve = .ok none)
    (hi : insertRow env t (inserted contentSha256 tenant id clock data) = .ok t') : Good resolve t' := by
  refine ⟨insertRow_captured h.captured hi, fun j m hm => ?_⟩
  rw [(insertRow_effect hi).2] at hm
  split_ifs at hm
  · obtain rfl := Option.some.inj hm
    exact ⟨_, by simp [record, inserted]; rfl, fun _ => hdata⟩
  · exact h.admitted j m hm

lemma updateRow_good {resolve : Resolver} {env : Settings} {t t' : Tables} {id : String} {clock : Calendar.Instant}
    {new : MemoryRecord} {old : Memory} (h : Good resolve t) (hnew : Admitted resolve new)
    (hold : t.memory id = some old) (hu : updateRow env t id (assign new clock) = .ok t') : Good resolve t' := by
  refine ⟨(updateRow_pending h.captured.pending hu).captured, fun j m hm => ?_⟩
  rw [updateRow_effect hold hu] at hm
  split_ifs at hm
  · obtain rfl := Option.some.inj hm
    exact ⟨_, record_assign new clock old _, admitted_congr rfl rfl rfl hnew⟩
  · exact h.admitted j m hm

lemma deleteRow_good {resolve : Resolver} {env : Settings} {t t' : Tables} {id : String} {rank : String → ℕ}
    {old : Memory} (h : Good resolve t) (hold : t.memory id = some old) (hd : deleteRow env t id rank = .ok t') :
    Good resolve t' := by
  refine ⟨deleteRow_captured h.captured hd, fun j m hm => ?_⟩
  rw [deleteRow_effect h.captured.memoryKey hold hd] at hm
  split_ifs at hm
  obtain ⟨n, hn, rfl⟩ := Option.map_eq_some_iff.mp hm
  split_ifs
  · exact (h.admitted j n hn).unlinked
  · exact h.admitted j n hn

lemma Upheld.goes {sys : System S} (h : Upheld rt sys) {s : S} {c : Call}
    (hc : CallAdmitted (resolveEvidence rt sys.objects) c) : Upheld rt (sys.goes s c).1 := by
  refine ⟨h.intact, h.committed, h.working, fun u d hd => ?_⟩
  by_cases hu : u = s
  · subst hu
    obtain rfl : c = d := by simpa [System.goes] using hd
    exact hc
  · exact h.calls u d (by simpa [System.goes, hu] using hd)

lemma Upheld.ends {sys : System S} (h : Upheld rt sys) (s : S) (request : Request)
    (result : Except StoreError Answer) : Upheld rt (sys.ends s request result).1 := by
  refine ⟨h.intact, h.committed, fun w hw => h.working w (Option.filter_eq_some_iff.mp hw).1, fun u d hd => ?_⟩
  by_cases hu : u = s
  · simp [System.ends, hu] at hd
  · exact h.calls u d (by simpa [System.ends, hu] using hd)

lemma Upheld.wrote {sys : System S} (h : Upheld rt sys) {s : S} {c : Call} {t : Tables} {returned : Returned}
    (ht : Good (resolveEvidence rt sys.objects) t) : Upheld rt (sys.wrote s c t returned).1 := by
  refine ⟨h.intact, h.committed, fun w hw => ?_, fun u d hd => ?_⟩
  · obtain rfl : ⟨s, t⟩ = w := by simpa [System.wrote] using hw
    exact ht
  · by_cases hu : u = s
    · subst hu
      obtain rfl : { c with progress := .committing returned } = d := by simpa [System.wrote] using hd
      cases c with
      | mk request attempt progress => cases request <;> trivial
    · exact h.calls u d (by simpa [System.wrote, hu] using hd)

lemma Upheld.published {sys : System S} (h : Upheld rt sys) (s : S) :
    Upheld rt { sys with committed := sys.published s } := by
  refine ⟨h.intact, ?_, h.working, h.calls⟩
  unfold System.published
  cases hw : sys.writer with
  | none => exact h.committed
  | some w =>
    dsimp only
    split_ifs
    · exact h.working w hw
    · exact h.committed

lemma step_upheld {sys : System S} (h : Upheld rt sys) {ev : Event S} (hev : ev.enforced = true) {r : Stepped S}
    (hs : step rt contentSha256 tenant sys ev = some r) : Upheld rt r.1 := by
  cases step_cases hs with
  | ends s request result _ => exact h.ends s request result
  | admitted s gate data warnings _ hgate => exact h.goes (gateCreate_admits (by simpa [Event.enforced] using hev) hgate)
  | started s request progress _ hp => rcases hp with rfl | rfl <;> cases request <;> exact h.goes trivial
  | selected s id data attempt m existing _ hm hrecord _ =>
    obtain ⟨r, hr, hadm⟩ := h.committed.admitted id m hm
    obtain rfl : r = existing := Option.some.inj (hr.symm.trans hrecord)
    exact h.goes hadm
  | checked s gate id data attempt existing warnings hcall hgate =>
    have hexisting : Admitted (resolveEvidence rt sys.objects) existing := h.calls s _ hcall
    exact h.goes (admitted_congr rfl rfl rfl (gateUpdate_admits (by simpa [Event.enforced] using hev) hexisting hgate))
  | redrawn s data attempt next hcall =>
    have hdata := h.calls s _ hcall
    exact h.goes (c := ⟨.create data, next, .inserting⟩) hdata
  | inserted s set data attempt t hcall _ hi => exact h.wrote (insertRow_good h.committed (h.calls s _ hcall) hi)
  | updated s set id data attempt existing new old m t hcall _ hold _ hu _ =>
    exact h.wrote (updateRow_good h.committed (h.calls s _ hcall) hold hu)
  | missed s id data attempt _ => exact h.goes trivial
  | absent s id attempt _ => exact h.goes trivial
  | deleted s set id attempt old t _ _ hold hd => exact h.wrote (deleteRow_good h.committed hold hd)
  | committed s request attempt returned _ => exact (h.published s).ends s request _
  | again s id data next _ => exact h.goes trivial
  | put now req =>
    unfold stepPut
    cases hput : putEvidenceObject rt now sys.objects req with
    | error e => exact h
    | ok r =>
      obtain ⟨obj, wasCreated, after⟩ := r
      obtain ⟨hintact, more, rfl⟩ := putEvidenceObject_intact h.intact hput
      have hext := resolveEvidence_extends hintact
      exact ⟨hintact, h.committed.extends hext, fun w hw => (h.working w hw).extends hext,
        fun s c hc => (h.calls s c hc).extends hext⟩

lemma run_upheld {sys sys' : System S} (h : Upheld rt sys) {evs : List (Event S)}
    (hevs : ∀ ev ∈ evs, ev.enforced = true) (hr : run rt contentSha256 tenant sys evs = some sys') :
    Upheld rt sys' := by
  induction evs generalizing sys with
  | nil => exact Option.some.inj hr ▸ h
  | cons ev evs ih =>
    obtain ⟨r, hs, hr⟩ := Option.bind_eq_some_iff.mp hr
    exact ih (step_upheld h (hevs ev List.mem_cons_self) hs) (fun e he => hevs e (List.mem_cons_of_mem _ he)) hr

omit [DecidableEq S] in
lemma start_upheld {objects : List EvidenceObject} (h : Intact rt objects) :
    Upheld rt (System.start Tables.empty objects : System S) := by
  refine ⟨h, ⟨empty_captured, fun id m hm => ?_⟩, fun w hw => ?_, fun s c hc => ?_⟩
  · simp [System.start, Tables.empty, Tables.memory] at hm
  · simp [System.start] at hw
  · simp [System.start] at hc

end RowStore

/-- Both stores, from empty: the file store's calls one after another, the row store's in any interleaving. -/
theorem clause_v_upheld {objects : List EvidenceObject} (hobjects : Intact rt objects) :
    (∀ ops : List JarvisStore.Op, (∀ op ∈ ops, op.enforced = true) →
      ∀ m ∈ (JarvisStore.run rt contentSha256 ⟨[], objects⟩ ops).memories,
        Admitted (resolveEvidence rt (JarvisStore.run rt contentSha256 ⟨[], objects⟩ ops).objects) m) ∧
    (∀ (S : Type) [DecidableEq S] (evs : List (RowStore.Event S)) (sys : RowStore.System S),
      (∀ ev ∈ evs, ev.enforced = true) →
      RowStore.run rt contentSha256 tenant (RowStore.System.start Tables.empty objects) evs = some sys →
      ∀ id m, sys.committed.memory id = some m →
        ∃ r, record m = some r ∧ Admitted (resolveEvidence rt sys.objects) r) := by
  constructor
  · intro ops hops
    exact (JarvisStore.run_upheld ⟨hobjects, by simp⟩ hops).admitted
  · intro S _ evs sys hevs hr
    exact (RowStore.run_upheld (RowStore.start_upheld hobjects) hevs hr).committed.admitted

def saving (drawnId : String) : JarvisStore.Surroundings := ⟨RowStore.openGate, drawnId, "2026-10-03T12:00:00+00:00", true⟩

def verifiedOps : List JarvisStore.Op :=
  [.create (saving "mem-1") (RowStore.decided "first"), .update (saving "") "mem-1" RowStore.verified]

theorem clause_v_upheld_verified :
    (∀ m ∈ (JarvisStore.run RowStore.plainRuntime (fun _ => genesis) ⟨[], []⟩ verifiedOps).memories,
      Admitted (resolveEvidence RowStore.plainRuntime
        (JarvisStore.run RowStore.plainRuntime (fun _ => genesis) ⟨[], []⟩ verifiedOps).objects) m) ∧
    ∃ sys, RowStore.run RowStore.plainRuntime (fun _ => genesis) "operator" RowStore.firstSystem
      (RowStore.updateRun ++ [.commit 2]) = some sys ∧ ∀ id m, sys.committed.memory id = some m →
        ∃ r, record m = some r ∧ Admitted (resolveEvidence RowStore.plainRuntime sys.objects) r := by
  have h := @clause_v_upheld RowStore.plainRuntime (fun _ => genesis) "operator" [] (by simp [Intact])
  obtain ⟨sys, hr⟩ := Option.isSome_iff_exists.mp (show (RowStore.run RowStore.plainRuntime (fun _ => genesis) "operator"
    RowStore.firstSystem (RowStore.updateRun ++ [.commit 2])).isSome = true by decide)
  exact ⟨h.1 verifiedOps (List.all_eq_true.mp (by decide)), sys, hr,
    h.2 ℕ _ sys (List.all_eq_true.mp (by decide)) hr⟩

end ContinuityLedger.Records
