import ContinuityLedger.Records.RowStore

/-! What one step of the row store's calls can be: one constructor for each outcome of a statement, with what the
statement found. -/

namespace ContinuityLedger.Records.RowStore

open Foundations Foundations.Sha256 Ledger Evidence

variable {S : Type} [DecidableEq S] {rt : Runtime} {contentSha256 : String → Hex64} {tenant : String}

/-- The session has no statement that waits for its commit. -/
def System.Free (sys : System S) (s : S) : Prop := ∀ c, sys.calls s = some c → ∀ returned, c.progress ≠ .committing returned

def ReturnsNoRow : Except StoreError Answer → Prop
  | .ok .nothing => True
  | .ok _ => False
  | .error _ => True

inductive Steps (rt : Runtime) (contentSha256 : String → Hex64) (tenant : String) (sys : System S) :
    Event S → Stepped S → Prop
  | ends {ev} (s : S) (request : Request) (result : Except StoreError Answer) (h : ReturnsNoRow result) :
      Steps rt contentSha256 tenant sys ev (sys.ends s request result)
  | admitted (s : S) (gate : GateSettings) (data : MemoryCreate) (warnings : List Reason) (hfree : sys.Free s)
      (hgate : gateCreate gate (resolveEvidence rt sys.objects) data = .ok warnings) :
      Steps rt contentSha256 tenant sys (.call s (.create data) gate) (sys.goes s ⟨.create data, 0, .inserting⟩)
  | started {gate} (s : S) (request : Request) (progress : Progress) (hfree : sys.Free s)
      (h : progress = .selecting ∨ progress = .deleting) :
      Steps rt contentSha256 tenant sys (.call s request gate) (sys.goes s ⟨request, 0, progress⟩)
  | selected (s : S) (id : String) (data : MemoryUpdate) (attempt : ℕ) (m : Memory) (existing : MemoryRecord)
      (hfree : sys.Free s) (hm : sys.committed.memory id = some m) (hrecord : record m = some existing)
      (hversion : JarvisStore.checkVersion existing data = .ok ()) :
      Steps rt contentSha256 tenant sys (.select s) (sys.goes s ⟨.update id data, attempt, .checking existing⟩)
  | checked (s : S) (gate : GateSettings) (id : String) (data : MemoryUpdate) (attempt : ℕ) (existing : MemoryRecord)
      (warnings : List Reason) (hcall : sys.calls s = some ⟨.update id data, attempt, .checking existing⟩)
      (hgate : gateUpdate gate (resolveEvidence rt sys.objects) existing data = .ok warnings) :
      Steps rt contentSha256 tenant sys (.check s gate)
        (sys.goes s ⟨.update id data, attempt, .updating existing (updates contentSha256 existing data)⟩)
  | redrawn {ev} (s : S) (data : MemoryCreate) (attempt next : ℕ)
      (hcall : sys.calls s = some ⟨.create data, attempt, .inserting⟩) :
      Steps rt contentSha256 tenant sys ev (sys.goes s ⟨.create data, next, .inserting⟩)
  | inserted (s : S) (set : WriteSettings) (data : MemoryCreate) (attempt : ℕ) (t : Tables)
      (hcall : sys.calls s = some ⟨.create data, attempt, .inserting⟩) (hwriter : sys.writer = none)
      (h : insertRow set.env sys.committed (inserted contentSha256 tenant set.drawnId set.clock data) = .ok t) :
      Steps rt contentSha256 tenant sys (.write s set)
        (sys.wrote s ⟨.create data, attempt, .inserting⟩ t (.row (inserted contentSha256 tenant set.drawnId set.clock data)))
  | updated (s : S) (set : WriteSettings) (id : String) (data : MemoryUpdate) (attempt : ℕ)
      (existing new : MemoryRecord) (old m : Memory) (t : Tables)
      (hcall : sys.calls s = some ⟨.update id data, attempt, .updating existing new⟩) (hwriter : sys.writer = none)
      (hold : sys.committed.memory id = some old) (hversion : old.version = existing.version)
      (h : updateRow set.env sys.committed id (assign new set.clock) = .ok t) (hm : t.memory id = some m) :
      Steps rt contentSha256 tenant sys (.write s set)
        (sys.wrote s ⟨.update id data, attempt, .updating existing new⟩ t (.row m))
  | missed {ev} (s : S) (id : String) (data : MemoryUpdate) (attempt : ℕ) (hfree : sys.Free s) :
      Steps rt contentSha256 tenant sys ev (sys.goes s ⟨.update id data, attempt, .retrying⟩)
  | absent {ev} (s : S) (id : String) (attempt : ℕ) (hfree : sys.Free s) :
      Steps rt contentSha256 tenant sys ev (sys.goes s ⟨.delete id, attempt, .committing (.deleted false)⟩)
  | deleted (s : S) (set : WriteSettings) (id : String) (attempt : ℕ) (old : Memory) (t : Tables)
      (hcall : sys.calls s = some ⟨.delete id, attempt, .deleting⟩) (hwriter : sys.writer = none)
      (hold : sys.committed.memory id = some old) (h : deleteRow set.env sys.committed id set.rank = .ok t) :
      Steps rt contentSha256 tenant sys (.write s set)
        (sys.wrote s ⟨.delete id, attempt, .deleting⟩ t (.deleted true))
  | committed (s : S) (request : Request) (attempt : ℕ) (returned : Returned)
      (hcall : sys.calls s = some ⟨request, attempt, .committing returned⟩) :
      Steps rt contentSha256 tenant sys (.commit s)
        ({ sys with committed := sys.published s }.ends s request returned.result)
  | again {ev} (s : S) (id : String) (data : MemoryUpdate) (next : ℕ) (hfree : sys.Free s) :
      Steps rt contentSha256 tenant sys ev (sys.goes s ⟨.update id data, next, .selecting⟩)
  | put {ev} (now : String) (req : EvidenceObjectCreate) :
      Steps rt contentSha256 tenant sys ev (stepPut rt sys now req, none)

omit [DecidableEq S] in
lemma free_of_call {sys : System S} {s : S} {c : Call} (h : sys.calls s = some c)
    (hp : ∀ returned, c.progress ≠ .committing returned) : sys.Free s := by
  intro d hd
  obtain rfl : c = d := Option.some.inj (h.symm.trans hd)
  exact hp

omit [DecidableEq S] in
lemma free_of_none {sys : System S} {s : S} (h : (sys.calls s).isSome = false) : sys.Free s := by
  intro c hc
  rw [hc] at h
  cases h

lemma stepCall_cases {sys : System S} {s : S} {request : Request} {gate : GateSettings} {r : Stepped S}
    (h : stepCall rt sys s request gate = some r) :
    Steps rt contentSha256 tenant sys (.call s request gate) r := by
  unfold stepCall at h
  by_cases hbusy : (sys.calls s).isSome = true
  · rw [if_pos hbusy] at h
    cases h
  rw [if_neg hbusy] at h
  have hfree := free_of_none (Bool.not_eq_true _ ▸ hbusy)
  cases request with
  | create data =>
    dsimp only at h
    cases hg : checkLinks data.evidence (resolveEvidence rt sys.objects) >>= fun _ =>
        gateCreate gate (resolveEvidence rt sys.objects) data with
    | error e =>
      rw [hg] at h
      obtain rfl := Option.some.inj h
      exact .ends s _ _ trivial
    | ok warnings =>
      rw [hg] at h
      obtain rfl := Option.some.inj h
      obtain ⟨-, -, hgate⟩ := Checks.bind_ok hg
      exact .admitted s gate data warnings hfree hgate
  | update id data =>
    obtain rfl := Option.some.inj h
    exact .started s _ _ hfree (.inl rfl)
  | delete id =>
    obtain rfl := Option.some.inj h
    exact .started s _ _ hfree (.inr rfl)

lemma stepSelect_cases {sys : System S} {s : S} {r : Stepped S} (h : stepSelect sys s = some r) :
    Steps rt contentSha256 tenant sys (.select s) r := by
  rw [stepSelect] at h
  split at h
  case h_2 => cases h
  case h_1 id data attempt hcall =>
  have hfree : sys.Free s := free_of_call hcall fun _ => by simp
  cases hm : sys.committed.memory id with
  | none =>
    rw [hm] at h
    obtain rfl := Option.some.inj h
    exact .ends s _ _ trivial
  | some m =>
    cases hr : record m with
    | none =>
      simp only [hm, hr] at h
      obtain rfl := Option.some.inj h
      exact .ends s _ _ trivial
    | some existing =>
      cases hv : JarvisStore.checkVersion existing data with
      | error e =>
        simp only [hm, hr, hv] at h
        obtain rfl := Option.some.inj h
        exact .ends s _ _ trivial
      | ok u =>
        simp only [hm, hr, hv] at h
        obtain rfl := Option.some.inj h
        exact .selected s id data attempt m existing hfree hm hr hv

lemma stepCheck_cases {sys : System S} {s : S} {gate : GateSettings} {r : Stepped S}
    (h : stepCheck rt contentSha256 sys s gate = some r) : Steps rt contentSha256 tenant sys (.check s gate) r := by
  rw [stepCheck] at h
  split at h
  case h_2 => cases h
  case h_1 id data attempt existing hcall =>
  dsimp only at h
  cases hg : checkLinks (data.evidence.getD []) (resolveEvidence rt sys.objects) >>= fun _ =>
      gateUpdate gate (resolveEvidence rt sys.objects) existing data >>= fun _ =>
        targetExists sys.committed (updates contentSha256 existing data).supersedes with
  | error e =>
    rw [hg] at h
    obtain rfl := Option.some.inj h
    exact .ends s _ _ trivial
  | ok u =>
    rw [hg] at h
    obtain rfl := Option.some.inj h
    obtain ⟨-, -, hrest⟩ := Checks.bind_ok hg
    obtain ⟨warnings, hgate, -⟩ := Checks.bind_ok hrest
    exact .checked s gate id data attempt existing warnings hcall hgate

lemma stepInsert_cases {sys : System S} {s : S} {data : MemoryCreate} {attempt : ℕ} {set : WriteSettings}
    {r : Stepped S} (hcall : sys.calls s = some ⟨.create data, attempt, .inserting⟩)
    (h : stepInsert contentSha256 tenant sys s ⟨.create data, attempt, .inserting⟩ data set = some r) :
    Steps rt contentSha256 tenant sys (.write s set) r := by
  rw [stepInsert] at h
  cases hw : sys.writer with
  | some w => simp [hw] at h
  | none =>
  rw [hw, if_neg (by simp)] at h
  cases ht : targetExists sys.committed data.supersedes with
  | error e =>
    simp only [ht] at h
    obtain rfl := Option.some.inj h
    exact .ends s _ _ trivial
  | ok u =>
  simp only [ht] at h
  cases he : execute set.env sys.committed (.insert (inserted contentSha256 tenant set.drawnId set.clock data)) with
  | ok t =>
    simp only [he] at h
    obtain rfl := Option.some.inj h
    exact .inserted s set data attempt t hcall hw he
  | error e =>
    cases e with
    | uniqueViolation =>
      simp only [he] at h
      split_ifs at h
      · obtain rfl := Option.some.inj h
        exact .redrawn s data attempt _ hcall
      · obtain rfl := Option.some.inj h
        exact .ends s _ _ trivial
    | _ =>
      simp only [he] at h
      obtain rfl := Option.some.inj h
      exact .ends s _ _ trivial

lemma stepUpdate_cases {sys : System S} {s : S} {id : String} {data : MemoryUpdate} {attempt : ℕ}
    {existing new : MemoryRecord} {set : WriteSettings} {r : Stepped S}
    (hcall : sys.calls s = some ⟨.update id data, attempt, .updating existing new⟩)
    (h : stepUpdate sys s ⟨.update id data, attempt, .updating existing new⟩ id existing new set = some r) :
    Steps rt contentSha256 tenant sys (.write s set) r := by
  rw [stepUpdate] at h
  cases hold : sys.committed.memory id with
  | none =>
    rw [hold, if_pos (by simp)] at h
    obtain rfl := Option.some.inj h
    exact .missed s id data attempt (free_of_call hcall fun _ => by simp)
  | some old =>
  by_cases hv : old.version = existing.version
  swap
  · rw [hold, if_pos (by simp [hv])] at h
    obtain rfl := Option.some.inj h
    exact .missed s id data attempt (free_of_call hcall fun _ => by simp)
  rw [hold, if_neg (by simp [hv])] at h
  cases hw : sys.writer with
  | some w => simp [hw] at h
  | none =>
  rw [hw, if_neg (by simp)] at h
  cases he : execute set.env sys.committed (.update id (assign new set.clock)) with
  | ok t =>
    simp only [he] at h
    obtain ⟨m, hm, rfl⟩ := Option.map_eq_some_iff.mp h
    exact .updated s set id data attempt existing new old m t hcall hw hold hv he hm
  | error e =>
    cases e with
    | _ =>
      simp only [he] at h
      obtain rfl := Option.some.inj h
      exact .ends s _ _ trivial

lemma stepDelete_cases {sys : System S} {s : S} {id : String} {attempt : ℕ} {set : WriteSettings} {r : Stepped S}
    (hcall : sys.calls s = some ⟨.delete id, attempt, .deleting⟩)
    (h : stepDelete sys s ⟨.delete id, attempt, .deleting⟩ id set = some r) :
    Steps rt contentSha256 tenant sys (.write s set) r := by
  rw [stepDelete] at h
  cases hold : sys.committed.memory id with
  | none =>
    rw [hold, if_pos (by simp)] at h
    obtain rfl := Option.some.inj h
    exact .absent s id attempt (free_of_call hcall fun _ => by simp)
  | some old =>
  rw [hold, if_neg (by simp)] at h
  cases hw : sys.writer with
  | some w => simp [hw] at h
  | none =>
  rw [hw, if_neg (by simp)] at h
  cases he : execute set.env sys.committed (.delete id set.rank) with
  | ok t =>
    simp only [he] at h
    obtain rfl := Option.some.inj h
    exact .deleted s set id attempt old t hcall hw hold he
  | error e =>
    simp only [he] at h
    obtain rfl := Option.some.inj h
    exact .ends s _ _ trivial

lemma stepWrite_cases {sys : System S} {s : S} {set : WriteSettings} {r : Stepped S}
    (h : stepWrite contentSha256 tenant sys s set = some r) : Steps rt contentSha256 tenant sys (.write s set) r := by
  rw [stepWrite] at h
  split at h
  case h_1 hcall => exact stepInsert_cases hcall h
  case h_2 hcall => exact stepUpdate_cases hcall h
  case h_3 hcall => exact stepDelete_cases hcall h
  case h_4 => cases h

lemma stepCommit_cases {sys : System S} {s : S} {r : Stepped S} (h : stepCommit sys s = some r) :
    Steps rt contentSha256 tenant sys (.commit s) r := by
  rw [stepCommit] at h
  split at h
  case h_1 request attempt returned hcall =>
    obtain rfl := Option.some.inj h
    exact .committed s request attempt returned hcall
  case h_2 id data attempt hcall =>
    split_ifs at h
    · obtain rfl := Option.some.inj h
      exact .ends s _ _ trivial
    · obtain rfl := Option.some.inj h
      exact .again s id data _ (free_of_call hcall fun _ => by simp)
    · obtain rfl := Option.some.inj h
      exact .ends s _ _ trivial
  case h_3 => cases h

lemma step_cases {sys : System S} {ev : Event S} {r : Stepped S} (h : step rt contentSha256 tenant sys ev = some r) :
    Steps rt contentSha256 tenant sys ev r := by
  cases ev with
  | call s request gate => exact stepCall_cases h
  | select s => exact stepSelect_cases h
  | check s gate => exact stepCheck_cases h
  | write s set => exact stepWrite_cases h
  | commit s => exact stepCommit_cases h
  | fail s =>
    obtain ⟨c, -, rfl⟩ := Option.map_eq_some_iff.mp h
    exact .ends s _ _ trivial
  | putEvidence now req =>
    obtain rfl := Option.some.inj h
    exact .put now req

end ContinuityLedger.Records.RowStore
