import ContinuityLedger.Records.RowSteps

/-! No update is lost: whatever the calls interleave, a call that returns has changed what it says, on the state that was
committed just before, and a call that raises has changed nothing. -/

namespace ContinuityLedger.Records.RowStore

open Foundations Foundations.Sha256 Ledger Evidence

variable {S : Type} [DecidableEq S] {rt : Runtime} {contentSha256 : String → Hex64} {tenant : String}

/-- The record is there as the call describes it, at version 1, and was not there before. -/
structure Created (contentSha256 : String → Hex64) (data : MemoryCreate) (m : MemoryRecord) (t t' : Tables) : Prop where
  absent : t.memory m.id = none
  row : ∃ new, t'.memory m.id = some new ∧ record new = some m
  version : m.version = 1
  fields : ∃ tenant id clock, record (inserted contentSha256 tenant id clock data) = some m
  others : ∀ j, j ≠ m.id → t'.memory j = t.memory j

/-- The row has gone one version on, and is the update's fields over the row just before. -/
structure Updated (contentSha256 : String → Hex64) (id : String) (data : MemoryUpdate) (m : MemoryRecord)
    (t t' : Tables) : Prop where
  row : ∃ old new before now, t.memory id = some old ∧ record old = some before ∧ t'.memory id = some new ∧
    record new = some m ∧ new.version = old.version + 1 ∧ (∀ expected ∈ data.expectedVersion, expected = old.version) ∧
    m = { updates contentSha256 before data with updatedAt := now, version := before.version + 1 }
  others : ∀ j, j ≠ id → t'.memory j = t.memory j

/-- The row is gone; a row that named it has lost its link and gone one version on. -/
structure Deleted (id : String) (t t' : Tables) : Prop where
  present : (t.memory id).isSome
  absent : t'.memory id = none
  others : ∀ j, j ≠ id → t'.memory j = (t.memory j).map fun m => if m.supersedes = some id then unlinked m else m

/-- What a call that has ended made of the committed rows. -/
def Explains (contentSha256 : String → Hex64) (request : Request) (result : Except StoreError Answer) (t t' : Tables) :
    Prop :=
  match request, result with
  | .create data, .ok (.record m) => Created contentSha256 data m t t'
  | .update id data, .ok (.record m) => Updated contentSha256 id data m t t'
  | .delete id, .ok (.deleted true) => Deleted id t t'
  | _, _ => t' = t

/-- No insert draws the id of a record that has been deleted. -/
def fresh (sys : System S) : Event S → Bool
  | .write s set =>
    match sys.calls s with
    | some ⟨_, _, .inserting⟩ =>
      !sys.committed.history.any (·.memoryId = set.drawnId) || (sys.committed.memory set.drawnId).isSome
    | _ => true
  | _ => true

def freshRun (rt : Runtime) (contentSha256 : String → Hex64) (tenant : String) : System S → List (Event S) → Bool
  | _, [] => true
  | sys, ev :: evs => fresh sys ev &&
    (step rt contentSha256 tenant sys ev).all fun r => freshRun rt contentSha256 tenant r.1 evs

omit [DecidableEq S] in
lemma fresh_insert {sys : System S} {s : S} {set : WriteSettings} {request : Request} {attempt : ℕ}
    (h : fresh sys (.write s set) = true) (hcall : sys.calls s = some ⟨request, attempt, .inserting⟩)
    (hin : ∃ e ∈ sys.committed.history, e.memoryId = set.drawnId) : (sys.committed.memory set.drawnId).isSome := by
  have hany : sys.committed.history.any (·.memoryId = set.drawnId) = true := by simpa using hin
  simpa [fresh, hcall, hany] using h

/-! ### What was read and what is there now -/

/-- A row under an id that was there is the same row or a later version. -/
structure Grows (t t' : Tables) : Prop where
  history : t.history <+: t'.history
  rows : ∀ j m', t'.memory j = some m' → (∃ m, t.memory j = some m ∧ (m' = m ∨ m.version < m'.version)) ∨
    ¬ ∃ e ∈ t.history, e.memoryId = j

lemma Grows.refl (t : Tables) : Grows t t := ⟨List.prefix_rfl, fun _ m' h => .inl ⟨m', h, .inl rfl⟩⟩

/-- What a call has read of a record: the row may be gone or may be newer, but a row of that version is the row read. -/
structure Read (id : String) (existing : MemoryRecord) (t : Tables) : Prop where
  known : ∃ e ∈ t.history, e.memoryId = id
  row : ∃ old, record old = some existing ∧ ∀ m, t.memory id = some m → m = old ∨ old.version < m.version

lemma Read.grows {id : String} {existing : MemoryRecord} {t t' : Tables} (h : Read id existing t) (hg : Grows t t') :
    Read id existing t' := by
  obtain ⟨e, he, hid⟩ := h.known
  obtain ⟨old, hold, hrow⟩ := h.row
  refine ⟨⟨e, hg.history.subset he, hid⟩, old, hold, fun m' hm' => ?_⟩
  rcases hg.rows id m' hm' with ⟨m, hm, hsame | hlater⟩ | hnew
  · exact hsame ▸ hrow m hm
  · right
    rcases hrow m hm with rfl | h'
    · exact hlater
    · exact h'.trans hlater
  · exact absurd ⟨e, he, hid⟩ hnew

/-- The writer's tables against what is committed: what its call is about to answer, and that nothing goes back. -/
structure Commits (contentSha256 : String → Hex64) (request : Request) (returned : Returned) (t t' : Tables) : Prop where
  captured : Captured t'
  grows : Grows t t'
  explains : Explains contentSha256 request returned.result t t'

/-- What holds of a call, given what is committed and who writes. -/
def CallHolds (contentSha256 : String → Hex64) (t : Tables) (writer : Option (Blocks.Writer S)) (s : S) (c : Call) :
    Prop :=
  match c.progress with
  | .checking existing => ∃ id data, c.request = .update id data ∧ Read id existing t ∧
      JarvisStore.checkVersion existing data = .ok ()
  | .updating existing new => ∃ id data, c.request = .update id data ∧ Read id existing t ∧
      JarvisStore.checkVersion existing data = .ok () ∧ new = updates contentSha256 existing data
  | .committing returned => (∃ t', writer = some ⟨s, t'⟩ ∧ Commits contentSha256 c.request returned t t') ∨
      ((∀ w ∈ writer, w.session ≠ s) ∧ ∃ id, c.request = .delete id ∧ returned = .deleted false)
  | _ => True

structure Inv (contentSha256 : String → Hex64) (sys : System S) : Prop where
  captured : Captured sys.committed
  calls : ∀ s c, sys.calls s = some c → CallHolds contentSha256 sys.committed sys.writer s c
  writer : ∀ w ∈ sys.writer, ∃ c returned, sys.calls w.session = some c ∧ c.progress = .committing returned

omit [DecidableEq S] in
lemma Inv.start {t : Tables} (h : Captured t) (objects : List EvidenceObject) :
    Inv contentSha256 (System.start t objects : System S) :=
  ⟨h, fun s c hc => by simp [System.start] at hc, fun w hw => by simp [System.start] at hw⟩

omit [DecidableEq S] in
lemma Inv.not_writer {sys : System S} (h : Inv contentSha256 sys) {s : S} (hfree : sys.Free s) :
    ∀ w ∈ sys.writer, w.session ≠ s := by
  rintro w hw rfl
  obtain ⟨c, returned, hc, hp⟩ := h.writer w hw
  exact hfree c hc returned hp

lemma Inv.goes {sys : System S} (h : Inv contentSha256 sys) {s : S} {c : Call} (hfree : sys.Free s)
    (hc : CallHolds contentSha256 sys.committed sys.writer s c) : Inv contentSha256 (sys.goes s c).1 := by
  refine ⟨h.captured, fun u d hd => ?_, fun w hw => ?_⟩
  · by_cases hu : u = s
    · subst hu
      obtain rfl : c = d := by simpa [System.goes] using hd
      exact hc
    · exact h.calls u d (by simpa [System.goes, hu] using hd)
  · obtain ⟨d, returned, hd, hp⟩ := h.writer w hw
    exact ⟨d, returned, by simpa [System.goes, h.not_writer hfree w hw] using hd, hp⟩

/-- A writer of another session stays when a call ends. -/
lemma CallHolds.filter {t : Tables} {writer : Option (Blocks.Writer S)} {s u : S} {c : Call} (hu : u ≠ s)
    (h : CallHolds contentSha256 t writer u c) :
    CallHolds contentSha256 t (writer.filter fun w : Blocks.Writer S => w.session ≠ s) u c := by
  unfold CallHolds at h ⊢
  split at h
  · exact h
  · exact h
  · rcases h with ⟨t', rfl, hcommits⟩ | ⟨hnone, hdel⟩
    · exact .inl ⟨t', by simp [hu], hcommits⟩
    · exact .inr ⟨fun w hw => hnone w (Option.filter_eq_some_iff.mp hw).1, hdel⟩
  · trivial

lemma Inv.ends {sys : System S} (h : Inv contentSha256 sys) (s : S) (request : Request)
    (result : Except StoreError Answer) : Inv contentSha256 (sys.ends s request result).1 := by
  refine ⟨h.captured, fun u d hd => ?_, fun w hw => ?_⟩
  · by_cases hu : u = s
    · simp [System.ends, hu] at hd
    · exact (h.calls u d (by simpa [System.ends, hu] using hd)).filter hu
  · obtain ⟨hin, hne⟩ : w ∈ sys.writer ∧ w.session ≠ s := by simpa [System.ends, Option.mem_def] using hw
    obtain ⟨d, returned, hd, hp⟩ := h.writer w hin
    exact ⟨d, returned, by simpa [System.ends, hne] using hd, hp⟩

lemma Inv.wrote {sys : System S} (h : Inv contentSha256 sys) {s : S} {c : Call} {t : Tables} {returned : Returned}
    (hwriter : sys.writer = none) (hcommits : Commits contentSha256 c.request returned sys.committed t) :
    Inv contentSha256 (sys.wrote s c t returned).1 := by
  refine ⟨h.captured, fun u d hd => ?_, fun w hw => ?_⟩
  · by_cases hu : u = s
    · subst hu
      obtain rfl : { c with progress := .committing returned } = d := by simpa [System.wrote] using hd
      exact .inl ⟨t, rfl, hcommits⟩
    · have hold := h.calls u d (by simpa [System.wrote, hu] using hd)
      unfold CallHolds at hold ⊢
      split at hold
      · exact hold
      · exact hold
      · rcases hold with ⟨t', ht', -⟩ | ⟨-, hdel⟩
        · rw [hwriter] at ht'
          cases ht'
        · refine .inr ⟨fun w hw => ?_, hdel⟩
          obtain rfl : ⟨s, t⟩ = w := by simpa [System.wrote] using hw
          exact Ne.symm hu
      · trivial
  · obtain rfl : ⟨s, t⟩ = w := by simpa [System.wrote] using hw
    exact ⟨{ c with progress := .committing returned }, returned, by simp [System.wrote], rfl⟩

lemma System.published_eq {sys : System S} {s : S} (h : ∀ w ∈ sys.writer, w.session ≠ s) :
    sys.published s = sys.committed := by
  unfold System.published
  cases hw : sys.writer with
  | none => rfl
  | some w => exact if_neg (h w hw)

omit [DecidableEq S] in
/-- What was read stays what it was where nothing goes back. -/
lemma CallHolds.grows {t t' : Tables} {writer : Option (Blocks.Writer S)} {s : S} {c : Call} (hg : Grows t t')
    (hfree : ∀ returned, c.progress = .committing returned → ∀ w ∈ writer, w.session ≠ s)
    (h : CallHolds contentSha256 t writer s c) : CallHolds contentSha256 t' none s c := by
  unfold CallHolds at h ⊢
  split at h
  · obtain ⟨id, data, hreq, hread, hv⟩ := h
    exact ⟨id, data, hreq, hread.grows hg, hv⟩
  · obtain ⟨id, data, hreq, hread, hv, hnew⟩ := h
    exact ⟨id, data, hreq, hread.grows hg, hv, hnew⟩
  · next returned hp =>
    rcases h with ⟨u, rfl, -⟩ | ⟨-, hdel⟩
    · exact absurd rfl (hfree returned hp ⟨s, u⟩ rfl)
    · exact .inr ⟨by simp, hdel⟩
  · trivial

/-- The writer's session commits: what it wrote is what the others see. -/
lemma Inv.commit_writer {sys : System S} (h : Inv contentSha256 sys) {s : S} {t : Tables} {c : Call}
    {returned : Returned} (hw : sys.writer = some ⟨s, t⟩) (hcommits : Commits contentSha256 c.request returned sys.committed t)
    (result : Except StoreError Answer) :
    Inv contentSha256 (({ sys with committed := t } : System S).ends s c.request result).1 := by
  have hnone : (({ sys with committed := t } : System S).ends s c.request result).1.writer = none := by
    simp [System.ends, hw]
  refine ⟨hcommits.captured, fun u d hd => ?_, fun w hin => ?_⟩
  · by_cases hu : u = s
    · simp [System.ends, hu] at hd
    · have hcall := h.calls u d (by simpa [System.ends, hu] using hd)
      have hgrown := hcall.grows hcommits.grows fun _ _ w hin => by
        obtain rfl : ⟨s, t⟩ = w := by simpa [hw] using hin
        exact Ne.symm hu
      rw [hnone]
      exact hgrown
  · rw [hnone] at hin
    cases hin

lemma Inv.commit {sys : System S} (h : Inv contentSha256 sys) {s : S} {c : Call} {returned : Returned}
    (hcall : sys.calls s = some c) (hp : c.progress = .committing returned) :
    Inv contentSha256 (({ sys with committed := sys.published s } : System S).ends s c.request returned.result).1 ∧
      Explains contentSha256 c.request returned.result sys.committed (sys.published s) := by
  have hholds := h.calls s c hcall
  unfold CallHolds at hholds
  rw [hp] at hholds
  rcases hholds with ⟨t, hw, hcommits⟩ | ⟨hnone, id, hreq, rfl⟩
  · have hpub : sys.published s = t := by
      unfold System.published
      rw [hw]
      exact if_pos rfl
    rw [hpub]
    exact ⟨h.commit_writer hw hcommits _, hcommits.explains⟩
  · rw [System.published_eq hnone]
    refine ⟨h.ends s _ _, ?_⟩
    rw [hreq]
    rfl

/-! ### What the statements do -/

lemma insert_commits {env : Settings} {t t' : Tables} {data : MemoryCreate} {id : String} {clock : Calendar.Instant}
    (ht : Captured t) (hfresh : (∃ e ∈ t.history, e.memoryId = id) → (t.memory id).isSome)
    (h : insertRow env t (inserted contentSha256 tenant id clock data) = .ok t') :
    Commits contentSha256 (.create data) (.row (inserted contentSha256 tenant id clock data)) t t' := by
  obtain ⟨hnone, hrows⟩ := insertRow_effect h
  have hid : (inserted contentSha256 tenant id clock data).id = id := rfl
  obtain ⟨m, hm⟩ : ∃ m, record (inserted contentSha256 tenant id clock data) = some m := by
    simp [record, inserted]
  have hmid : m.id = id := (record_id hm).trans hid
  refine ⟨insertRow_captured ht h, ⟨insertRow_isPrefix h, fun j m' hj => ?_⟩, ?_⟩
  · rw [hrows] at hj
    by_cases hjd : j = (inserted contentSha256 tenant id clock data).id
    · right
      rintro ⟨e, he, heid⟩
      have hlive := hfresh ⟨e, he, heid.trans (hjd.trans hid)⟩
      rw [← hid, hnone] at hlive
      cases hlive
    · rw [if_neg hjd] at hj
      exact .inl ⟨m', hj, .inl rfl⟩
  · have hresult : Returned.result (.row (inserted contentSha256 tenant id clock data)) = .ok (.record m) := by
      rw [Returned.result, hm]
    rw [hresult]
    refine ⟨hmid ▸ hnone, ⟨_, by rw [hmid, hrows, hid, if_pos rfl], hm⟩, ?_, ⟨tenant, id, clock, hm⟩, fun j hj => ?_⟩
    · rw [record_version hm]
      rfl
    · rw [hrows, if_neg (fun he => hj (he.trans hmid.symm))]

lemma checkVersion_ok {existing : MemoryRecord} {data : MemoryUpdate} (h : JarvisStore.checkVersion existing data = .ok ()) :
    ∀ expected ∈ data.expectedVersion, expected = existing.version := by
  intro expected he
  rw [JarvisStore.checkVersion, he] at h
  by_contra hne
  simp [hne] at h

/-- The version guard: the row that is overwritten is the row that was read. -/
lemma update_commits {env : Settings} {t t' : Tables} {id : String} {data : MemoryUpdate} {existing : MemoryRecord}
    {clock : Calendar.Instant} {old m : Memory} (ht : Captured t) (hread : Read id existing t)
    (hexpected : JarvisStore.checkVersion existing data = .ok ()) (hold : t.memory id = some old)
    (hversion : old.version = existing.version)
    (h : updateRow env t id (assign (updates contentSha256 existing data) clock) = .ok t') (hm : t'.memory id = some m) :
    Commits contentSha256 (.update id data) (.row m) t t' := by
  obtain ⟨first, hfirst, hsame⟩ := hread.row
  obtain rfl : old = first := by
    rcases hsame old hold with h | h
    · exact h
    · rw [hversion, record_version hfirst] at h
      exact absurd h (lt_irrefl _)
  have hrows := updateRow_effect hold h
  have hnew : m = { assign (updates contentSha256 existing data) clock old with version := old.version + 1 } := by
    rw [hrows, if_pos rfl] at hm
    exact (Option.some.inj hm).symm
  refine ⟨(updateRow_pending ht.pending h).captured, ⟨updateRow_isPrefix h, fun j m' hj => ?_⟩, ?_⟩
  · rw [hrows] at hj
    by_cases hjd : j = id
    · subst hjd
      rw [if_pos rfl] at hj
      obtain rfl := Option.some.inj hj
      exact .inl ⟨old, hold, .inr (lt_add_one _)⟩
    · rw [if_neg hjd] at hj
      exact .inl ⟨m', hj, .inl rfl⟩
  · have hrecord : record m = some { updates contentSha256 existing data with
        updatedAt := isoformat clock, version := existing.version + 1 } := by
      obtain ⟨links, hlinks, rfl⟩ := Option.map_eq_some_iff.mp hfirst
      rw [hnew, record_assign]
      rfl
    rw [Returned.result, hrecord]
    refine ⟨⟨old, m, existing, isoformat clock, hold, hfirst, hm, hrecord, by rw [hnew], fun expected he => ?_, rfl⟩,
      fun j hj => by rw [hrows, if_neg hj]⟩
    rw [checkVersion_ok hexpected expected he, hversion]

lemma delete_commits {env : Settings} {t t' : Tables} {id : String} {old : Memory} {rank : String → ℕ} (ht : Captured t)
    (hold : t.memory id = some old) (h : deleteRow env t id rank = .ok t') :
    Commits contentSha256 (.delete id) (.deleted true) t t' := by
  have hrows := deleteRow_effect ht.memoryKey hold h
  refine ⟨deleteRow_captured ht h, ⟨deleteRow_isPrefix h, fun j m' hj => ?_⟩, ?_, ?_, fun j hj => ?_⟩
  · rw [hrows] at hj
    by_cases hjd : j = id
    · rw [if_pos hjd] at hj
      cases hj
    · rw [if_neg hjd] at hj
      obtain ⟨m, hm, rfl⟩ := Option.map_eq_some_iff.mp hj
      refine .inl ⟨m, hm, ?_⟩
      by_cases hs : m.supersedes = some id
      · rw [if_pos hs]
        exact .inr (lt_add_one m.version)
      · exact .inl (if_neg hs)
  · rw [hold]
    rfl
  · rw [hrows, if_pos rfl]
  · rw [hrows, if_neg hj]

/-! ### Runs -/

/-- What a step leaves behind: the invariant, and the committed rows as the ended call says. -/
lemma step_inv {sys : System S} (h : Inv contentSha256 sys) {ev : Event S} {r : Stepped S} (hfresh : fresh sys ev = true)
    (hs : step rt contentSha256 tenant sys ev = some r) :
    Inv contentSha256 r.1 := by
  cases step_cases hs with
  | ends s request result _ => exact h.ends s request result
  | admitted s gate data warnings hfree hgate => exact h.goes hfree trivial
  | started s request progress hfree hp => rcases hp with rfl | rfl <;> exact h.goes hfree trivial
  | selected s id data attempt m existing hfree hm hrecord hversion =>
    refine h.goes hfree ⟨id, data, rfl, ⟨?_, m, hrecord, fun m' hm' => .inl ?_⟩, hversion⟩
    · exact h.captured.entry_of_row hm
    · exact Option.some.inj (hm'.symm.trans hm)
  | checked s gate id data attempt existing warnings hcall hgate =>
    obtain ⟨id', data', hreq, hread, hv⟩ := h.calls s _ hcall
    obtain ⟨rfl, rfl⟩ := Request.update.inj hreq
    exact h.goes (free_of_call hcall fun _ => by simp) ⟨id, data, rfl, hread, hv, rfl⟩
  | redrawn s data attempt next hcall => exact h.goes (free_of_call hcall fun _ => by simp) trivial
  | inserted s set data attempt t hcall hwriter hins =>
    exact h.wrote hwriter (insert_commits h.captured (fresh_insert hfresh hcall) hins)
  | updated s set id data attempt existing new old m t hcall hwriter hold hversion hupd hm =>
    obtain ⟨id', data', hreq, hread, hv, rfl⟩ := h.calls s _ hcall
    obtain ⟨rfl, rfl⟩ := Request.update.inj hreq
    exact h.wrote hwriter (update_commits h.captured hread hv hold hversion hupd hm)
  | missed s id data attempt hfree => exact h.goes hfree trivial
  | absent s id attempt hfree => exact h.goes hfree (.inr ⟨h.not_writer hfree, id, rfl, rfl⟩)
  | deleted s set id attempt old t hcall hwriter hold hdel =>
    exact h.wrote hwriter (delete_commits h.captured hold hdel)
  | committed s request attempt returned hcall => exact (h.commit hcall rfl).1
  | again s id data next hfree => exact h.goes hfree trivial
  | put now req =>
    unfold stepPut
    cases putEvidenceObject rt now sys.objects req with
    | error e => exact h
    | ok after => exact ⟨h.captured, h.calls, h.writer⟩

lemma run_inv {sys sys' : System S} (h : Inv contentSha256 sys) {evs : List (Event S)}
    (hfresh : freshRun rt contentSha256 tenant sys evs = true) (hr : run rt contentSha256 tenant sys evs = some sys') :
    Inv contentSha256 sys' := by
  induction evs generalizing sys with
  | nil => exact Option.some.inj hr ▸ h
  | cons ev evs ih =>
    obtain ⟨r, hs, hr⟩ := Option.bind_eq_some_iff.mp hr
    rw [freshRun, hs, Bool.and_eq_true] at hfresh
    exact ih (step_inv h hfresh.1 hs) hfresh.2 hr

/-- What the committed rows have become is what the call that has just ended says, and nothing where none has ended. -/
def Told (contentSha256 : String → Hex64) (t t' : Tables) : Option (Ended S) → Prop
  | none => t' = t
  | some e => Explains contentSha256 e.request e.result t t'

omit [DecidableEq S] in
lemma explains_refl {request : Request} {result : Except StoreError Answer} (h : ReturnsNoRow result) (t : Tables) :
    Explains contentSha256 request result t t := by
  cases result with
  | error e => cases request <;> rfl
  | ok answer =>
    cases answer with
    | nothing => cases request <;> rfl
    | record m => exact h.elim
    | deleted found => exact h.elim

theorem no_lost_update {t : Tables} (ht : Captured t) {objects : List EvidenceObject} {evs : List (Event S)}
    {sys : System S} (hfresh : freshRun rt contentSha256 tenant (System.start t objects) evs = true)
    (hr : run rt contentSha256 tenant (System.start t objects) evs = some sys) {ev : Event S} {r : Stepped S}
    (hs : step rt contentSha256 tenant sys ev = some r) :
    Told contentSha256 sys.committed r.1.committed r.2 := by
  have h := run_inv (Inv.start ht objects) hfresh hr
  cases step_cases hs with
  | ends s request result hresult => exact explains_refl hresult _
  | committed s request attempt returned hcall => exact (h.commit hcall rfl).2
  | put now req =>
    unfold stepPut
    cases putEvidenceObject rt now sys.objects req <;> rfl
  | _ => rfl

lemma depth_pos : 0 < 900 := Nat.succ_pos 899

def plainRuntime : Runtime := ⟨⟨id, 900, 900, depth_pos, depth_pos⟩, fun _ => true, PyStr.ofString, fun _ => []⟩

def openGate : GateSettings := ⟨none, none, fun _ _ _ => []⟩

lemma cited_ref : 1 ≤ "chat 7".length ∧ "chat 7".length ≤ 1000 := by decide

lemma cited_note : "".length ≤ 500 := by decide

def cited : EvidenceLink := ⟨"user-request", "chat 7", "", cited_ref, cited_note⟩

def decided (content : String) : MemoryCreate :=
  ⟨content, "chat", "s1", .decision, ⟨5, 1⟩, [cited], none, .draft, none, []⟩

def verified : MemoryUpdate := ⟨none, none, none, none, none, none, none, some .verified, none, none, none⟩

def drawing (drawnId : String) : WriteSettings := ⟨⟨"operator", some "operator", none, 0, id⟩, 0, drawnId, fun _ => 0⟩

def firstSystem : System ℕ := System.start Tables.empty []

/-- A record is created, and an update of it waits for its commit. -/
def updateRun : List (Event ℕ) := [.call 1 (.create (decided "first")) openGate, .write 1 (drawing "mem-1"), .commit 1,
  .call 2 (.update "mem-1" verified) openGate, .select 2, .check 2 openGate, .write 2 (drawing "")]

theorem no_lost_update_updateRun : ∃ sys r,
    run plainRuntime (fun _ => genesis) "operator" firstSystem updateRun = some sys ∧
    step plainRuntime (fun _ => genesis) "operator" sys (.commit 2) = some r ∧
    Told (fun _ => genesis) sys.committed r.1.committed r.2 := by
  obtain ⟨⟨sys, r⟩, h⟩ := Option.isSome_iff_exists.mp (show ((run plainRuntime (fun _ => genesis) "operator" firstSystem
    updateRun).bind fun sys => (step plainRuntime (fun _ => genesis) "operator" sys (.commit 2)).map fun r =>
      (sys, r)).isSome = true by decide)
  obtain ⟨sys', hr, h⟩ := Option.bind_eq_some_iff.mp h
  obtain ⟨r', hs, heq⟩ := Option.map_eq_some_iff.mp h
  exact ⟨sys', r', hr, hs, no_lost_update empty_captured (by decide) hr hs⟩

/-- While an update waits, its record is deleted, and another record is created under the same id. -/
def redrawnRun : List (Event ℕ) := [.call 1 (.create (decided "first")) openGate, .write 1 (drawing "mem-1"), .commit 1,
  .call 2 (.update "mem-1" verified) openGate, .select 2, .check 2 openGate,
  .call 3 (.delete "mem-1") openGate, .write 3 (drawing ""), .commit 3,
  .call 4 (.create (decided "second")) openGate, .write 4 (drawing "mem-1"), .commit 4, .write 2 (drawing "")]

/-- The content that is committed, and the content that the update is about to put in its place. -/
def contents (sys : System ℕ) : Option (String × String × Option String) := do
  let old ← sys.committed.memory "mem-1"
  let r ← step plainRuntime (fun _ => genesis) "operator" sys (.commit 2)
  match r.2 with
  | some ⟨_, .update "mem-1" data, .ok (.record m)⟩ => some (old.content, m.content, data.content)
  | _ => none

/-- The version guard holds, and the deleted record's content is written over the new record's. -/
theorem redrawn_id_loses_update : ¬ ∀ (evs : List (Event ℕ)) (sys : System ℕ) (ev : Event ℕ) (r : Stepped ℕ),
    run plainRuntime (fun _ => genesis) "operator" firstSystem evs = some sys →
    step plainRuntime (fun _ => genesis) "operator" sys ev = some r →
    Told (fun _ => genesis) sys.committed r.1.committed r.2 := by
  intro h
  have hrun : (run plainRuntime (fun _ => genesis) "operator" firstSystem redrawnRun).bind contents =
      some ("second", "first", none) := by decide +kernel
  obtain ⟨sys, hr, hcontents⟩ := Option.bind_eq_some_iff.mp hrun
  obtain ⟨old, hold, hcontents⟩ := Option.bind_eq_some_iff.mp hcontents
  obtain ⟨⟨after, ended⟩, hs, hcontents⟩ := Option.bind_eq_some_iff.mp hcontents
  have htold := h redrawnRun sys (.commit 2) _ hr hs
  dsimp only at hcontents
  split at hcontents
  case h_2 => cases hcontents
  case h_1 session data m =>
  obtain ⟨hfirst, hrest⟩ := Prod.mk.inj (Option.some.inj hcontents)
  obtain ⟨hsecond, hnone⟩ := Prod.mk.inj hrest
  obtain ⟨old', new, before, now, hold', hbefore, -, -, -, -, hm⟩ := (show Updated _ _ _ _ _ _ from htold).row
  obtain rfl : old = old' := Option.some.inj (hold.symm.trans hold')
  obtain ⟨links, -, rfl⟩ := Option.map_eq_some_iff.mp hbefore
  have hsame : m.content = old.content := by
    rw [hm]
    simp [updates, merged, hnone]
  rw [hfirst, hsecond] at hsame
  exact absurd hsame (by decide)

end ContinuityLedger.Records.RowStore
