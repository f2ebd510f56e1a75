import ContinuityLedger.Recall.Gateway

/-! When a governed write leaves the ledger as it was or with the one record that it promises. -/

namespace ContinuityLedger.Recall

open Foundations Records Ledger Evidence

inductive WriteRequest
  | remember (req : EmrRememberRequest)
  | upsert (req : EmrUpsertRequest)

/-- A call and its surroundings: those of the create, and those of the archiving that an upsert ends with. -/
structure GovernedWrite where
  gateway : Gateway
  creating : JarvisStore.Surroundings
  closing : JarvisStore.Surroundings
  resolve : Resolver
  requireWriteFlag : Bool
  request : WriteRequest

variable (contentSha256 : String → String)

namespace GovernedWrite

variable (w : GovernedWrite) (memories : List (MemoryRecord String))

def plan : WritePlan :=
  match w.request with
  | .remember req => planRemember contentSha256 w.gateway memories req w.requireWriteFlag
  | .upsert req => planUpsert contentSha256 w.gateway memories req w.requireWriteFlag

def run : Except StoreError EmrWriteResponse × List (MemoryRecord String) :=
  match w.request with
  | .remember req => emrRemember contentSha256 w.gateway w.creating w.resolve memories req w.requireWriteFlag
  | .upsert req => emrUpsert contentSha256 w.gateway w.creating w.closing w.resolve memories req w.requireWriteFlag

/-- The gates let the call through, and the store lets the record in. -/
def Admits (data : MemoryCreate) : Prop :=
  ∃ raw, w.plan contentSha256 memories = .create raw ∧ memoryCreate w.gateway raw = .ok data ∧
    JarvisStore.checkCreate w.creating w.resolve memories data = .ok ()

end GovernedWrite

def ids (memories : List (MemoryRecord String)) : List String := memories.map (·.id)

/-- One new draft, or a live record of the subject that says the same. -/
def Remembered (req : EmrRememberRequest) (memories after : List (MemoryRecord String)) (resp : EmrWriteResponse) : Prop :=
  (∃ new, after = memories ++ [new] ∧ new.id ∉ ids memories ∧ new.status = .draft ∧ new.content = req.content ∧
    resp.memory = some new) ∨
  (after = memories ∧ ∃ e ∈ memories, active e = true ∧ e.subject = req.subject ∧
    claimHash contentSha256 e = contentSha256 req.content ∧ resp.memory = some e)

/-- One new draft that supersedes the target, and the target archived. -/
def Upserted (req : EmrUpsertRequest) (memories after : List (MemoryRecord String)) (resp : EmrWriteResponse) : Prop :=
  ∃ target new now, target ∈ memories ∧ target.id = req.id ∧ target.status ≠ .verified ∧
    after = KeyedTable.replace MemoryRecord.id
      { target with status := .archived, version := target.version + 1, updatedAt := now } memories ++ [new] ∧
    new.id ∉ ids memories ∧ new.status = .draft ∧ new.content = req.content ∧ new.supersedes = some req.id ∧
    resp.memory = some new

def Promised (request : WriteRequest) (memories after : List (MemoryRecord String)) (resp : EmrWriteResponse) : Prop :=
  match request with
  | .remember req => Remembered contentSha256 req memories after resp
  | .upsert req => Upserted req memories after resp

structure Legal (w : GovernedWrite) (memories : List (MemoryRecord String)) : Prop where
  refused : (∀ resp, (w.run contentSha256 memories).1 = .ok resp → resp.accepted = false) →
    (w.run contentSha256 memories).2 = memories
  accepted : ∀ resp, (w.run contentSha256 memories).1 = .ok resp → resp.accepted = true →
    Promised contentSha256 w.request memories (w.run contentSha256 memories).2 resp
  verified : ∀ r, r.status = .verified → (r ∈ (w.run contentSha256 memories).2 ↔ r ∈ memories)

/-- The drawn id is no record's, unless it is that of the very record that is made. -/
def Harmless (w : GovernedWrite) (memories : List (MemoryRecord String)) (data : MemoryCreate) : Prop :=
  ∀ r ∈ memories, r.id = w.creating.drawnId →
    w.creating.saves = true ∧ r = JarvisStore.created contentSha256 w.creating data

/-- What a write that is let in takes: an upsert that saves its record also saves the archiving. -/
def Completes (w : GovernedWrite) (memories : List (MemoryRecord String)) (data : MemoryCreate) : Prop :=
  match w.request with
  | .remember _ => Harmless contentSha256 w memories data
  | .upsert _ => Harmless contentSha256 w memories data ∧
      (w.creating.saves = true → (w.closing.saves = true ↔ w.creating.drawnId ∉ ids memories))

variable {contentSha256}

/-! ### Refusals -/

lemma refuse_refuses {reason detail : String} {conflicts : List ConflictNote} {r : EmrWriteResponse}
    (h : some (refuse reason detail conflicts) = some r) : r.accepted = false := by
  rw [← Option.some.inj h]
  rfl

lemma gateCommon_refuses {g : Gateway} {userRequested : Bool} {content : String} {status : Option String}
    {requireWriteFlag : Bool} {r : EmrWriteResponse} (h : gateCommon g userRequested content status requireWriteFlag = some r) :
    r.accepted = false := by
  rw [gateCommon] at h
  split at h
  · exact refuse_refuses h
  split at h
  · exact refuse_refuses h
  split at h
  · exact refuse_refuses h
  split at h
  · exact refuse_refuses h
  split at h
  · exact refuse_refuses h
  · cases h

lemma peerBlock_refuses {g : Gateway} {memories : List (MemoryRecord String)} {subject newHash : String}
    {supersedingIds : List String} {r : EmrWriteResponse}
    (h : peerBlock contentSha256 g memories subject newHash supersedingIds = some r) : r.accepted = false := by
  rw [peerBlock] at h
  split_ifs at h
  exact refuse_refuses h

lemma block_refuses {g : Gateway} {memories : List (MemoryRecord String)} {subject : Option String} {newHash : String}
    {supersedingIds : List String} {r : EmrWriteResponse}
    (h : subjectConflictBlock contentSha256 g memories subject newHash supersedingIds = some r) : r.accepted = false := by
  rw [subjectConflictBlock] at h
  cases hs : target subject with
  | none => rw [hs] at h; cases h
  | some s =>
    rw [hs] at h
    dsimp only at h
    split_ifs at h
    · exact peerBlock_refuses h
    · obtain ⟨c, -, rfl⟩ := Option.map_eq_some_iff.mp h
      rfl

lemma caught_refuses {g : Gateway} {e : StoreError} {r : EmrWriteResponse} (h : caught g e = .ok r) : r.accepted = false := by
  unfold caught at h
  split at h
  · rw [← Except.ok.inj h]; rfl
  · rw [← Except.ok.inj h]; rfl
  · rw [← Except.ok.inj h]; rfl
  · cases h

lemma mem_listMemories {memories : List (MemoryRecord String)} {call : Listed} {m : MemoryRecord String}
    (h : m ∈ listMemories memories call) : m ∈ memories ∧ call.passes m = true :=
  List.mem_filter.mp (List.mem_mergeSort.mp ((slice_sublist _ _).subset h))

lemma sameClaim_spec {memories : List (MemoryRecord String)} {subject : Option String} {newHash : String}
    {e : MemoryRecord String} (h : sameClaim contentSha256 memories subject newHash = some e) :
    e ∈ memories ∧ active e = true ∧ e.subject = subject ∧ claimHash contentSha256 e = newHash := by
  obtain ⟨s, hs, hfind⟩ := Option.bind_eq_some_iff.mp h
  obtain ⟨rfl, hne⟩ := Option.filter_eq_some_iff.mp hs
  have hne : s ≠ "" := by simpa using hne
  obtain ⟨hmem, hp⟩ := mem_listMemories (List.mem_of_find?_eq_some hfind)
  have hhash : claimHash contentSha256 e = newHash := by simpa using List.find?_some hfind
  have hlower : PyText.lower "live" = "live" := by decide
  simp [Listed.passes, cohortCall, given, inScope, hlower, hne] at hp
  refine ⟨hmem, ?_, hp.2, hhash⟩
  rw [active]
  exact decide_eq_true hp.1

variable (contentSha256) in
/-- What a remember makes of the request. -/
lemma planRemember_cases (g : Gateway) (memories : List (MemoryRecord String)) (req : EmrRememberRequest)
    (requireWriteFlag : Bool) :
    (∃ r, planRemember contentSha256 g memories req requireWriteFlag = .answer r ∧ (r.accepted = false ∨
      ∃ e ∈ memories, active e = true ∧ e.subject = req.subject ∧ claimHash contentSha256 e = contentSha256 req.content ∧
        r.memory = some e)) ∨
    ∃ data, planRemember contentSha256 g memories req requireWriteFlag = .create data ∧ data.status = .draft ∧
      data.content = req.content ∧ data.subject = req.subject := by
  rw [planRemember]
  cases hgate : gateCommon g req.userRequested req.content req.status requireWriteFlag with
  | some r => exact .inl ⟨r, rfl, .inl (gateCommon_refuses hgate)⟩
  | none =>
    cases hblock : subjectConflictBlock contentSha256 g memories req.subject (contentSha256 req.content) [] with
    | some r => exact .inl ⟨r, rfl, .inl (block_refuses hblock)⟩
    | none =>
      cases hsame : sameClaim contentSha256 memories req.subject (contentSha256 req.content) with
      | some e =>
        obtain ⟨hmem, hactive, hsubject, hhash⟩ := sameClaim_spec hsame
        exact .inl ⟨_, rfl, .inr ⟨e, hmem, hactive, hsubject, hhash, rfl⟩⟩
      | none => exact .inr ⟨_, rfl, rfl, rfl, rfl⟩

variable (contentSha256) in
/-- What an upsert makes of the request. -/
lemma planUpsert_cases (g : Gateway) (memories : List (MemoryRecord String)) (req : EmrUpsertRequest)
    (requireWriteFlag : Bool) :
    (∃ r, planUpsert contentSha256 g memories req requireWriteFlag = .answer r ∧ r.accepted = false) ∨
    ∃ data existing, planUpsert contentSha256 g memories req requireWriteFlag = .create data ∧
      JarvisStore.get memories req.id = some existing ∧ existing.status ≠ .verified ∧ data.status = .draft ∧
      data.content = req.content ∧ data.supersedes = some req.id := by
  rw [planUpsert]
  cases hgate : gateCommon g req.userRequested req.content req.status requireWriteFlag with
  | some r => exact .inl ⟨r, rfl, gateCommon_refuses hgate⟩
  | none =>
    cases hget : JarvisStore.get memories req.id with
    | none => exact .inl ⟨_, rfl, rfl⟩
    | some existing =>
      dsimp only
      by_cases hverified : existing.status = .verified
      · rw [if_pos hverified]
        exact .inl ⟨_, rfl, rfl⟩
      · rw [if_neg hverified]
        by_cases hother : (req.supersedes.any fun s => PyText.strip s ≠ "" && PyText.strip s ≠ req.id) = true
        · rw [if_pos hother]
          exact .inl ⟨_, rfl, rfl⟩
        · rw [if_neg hother]
          cases hblock : subjectConflictBlock contentSha256 g memories (req.subject.or existing.subject)
              (contentSha256 req.content) [req.id] with
          | some r => exact .inl ⟨r, rfl, block_refuses hblock⟩
          | none =>
            dsimp only
            by_cases hsession : PyText.strip (orElse req.sessionId existing.sessionId) = ""
            · rw [if_pos hsession]
              exact .inl ⟨_, rfl, rfl⟩
            · rw [if_neg hsession]
              exact .inr ⟨_, existing, rfl, rfl, hverified, rfl, rfl, rfl⟩

end ContinuityLedger.Recall
