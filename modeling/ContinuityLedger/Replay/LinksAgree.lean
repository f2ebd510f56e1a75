import ContinuityLedger.Blocks.Cited
import ContinuityLedger.Evidence.Links
import ContinuityLedger.Ledger.CaptureInvariant
import ContinuityLedger.Records.Row
import ContinuityLedger.Replay.State

/-! The history entries of a range, each with the state of the evidence it links to; and where the write gate and the readers
agree on what a link names: the gate folds case and trims, the readers compare the stored text. -/

namespace ContinuityLedger.Replay

open Foundations Foundations.Sha256 Ledger Evidence

inductive LinkStatus
  | intact | missing | tampered | notChecked
deriving DecidableEq

def LinkStatus.text : LinkStatus → String
  | .intact => "intact"
  | .missing => "missing"
  | .tampered => "tampered"
  | .notChecked => "not-checked"

structure EvidenceStatus where
  kind : String
  ref : String
  note : Option String
  status : LinkStatus

structure ReplayEvent where
  seq : ℤ
  memoryId : String
  op : Op
  version : ℤ
  actor : String
  changedAt : String
  prevHash : Hex64
  rowHash : Hex64
  before : Option Jsonb.Value
  after : Option Jsonb.Value
  evidence : List EvidenceStatus

structure ReplayEvents where
  tenant : String
  fromSeq : ℤ
  toSeq : ℤ
  historySeq : ℤ
  events : List ReplayEvent
  nextFromSeq : Option ℤ

abbrev Fields := List (String × Jsonb.Value)

/-- The links of an image, as dicts. -/
def evidenceLinks (image : Option Jsonb.Value) : List Fields :=
  match image with
  | some (.object fields) =>
    match fields.lookup "evidence" with
    | some (.array items) => items.filterMap fun j => match j with
      | .object link => some link
      | _ => none
    | _ => []
  | _ => []

/-- `link.get("kind") == "evidence-object"`. -/
def namesObject (link : Fields) : Bool :=
  match link.lookup "kind" with
  | some (.string kind) => kind = linkKindName
  | _ => false

def linkObjectRef (link : Fields) : Option String :=
  match link.lookup "ref" with
  | some (.string ref) => if ref = "" then none else some ref
  | _ => none

def rowRefs (e : HistoryEntry) : List String :=
  ((evidenceLinks e.after ++ evidenceLinks e.before).filter namesObject).filterMap linkObjectRef

def linkStatus (rt : Runtime) (fetched : List EvidenceObject) (link : Fields) : Except Exn LinkStatus :=
  if !namesObject link then .ok .notChecked else
  match (linkObjectRef link).bind (getEvidenceObject fetched) with
  | none => .ok .missing
  | some obj => (verifyStored rt obj).map fun problems => if problems = [] then .intact else .tampered

/-- The models' links have text members; a link with others is refused here. -/
def evidenceStatus (rt : Runtime) (fetched : List EvidenceObject) (link : Fields) : Except Exn EvidenceStatus := do
  let status ← linkStatus rt fetched link
  match Records.textMember link "kind" (some ""), Records.textMember link "ref" (some "") with
  | some kind, some ref => .ok ⟨kind, ref, Records.textMember link "note" none, status⟩
  | _, _ => .error .value

def replayEvent (rt : Runtime) (fetched : List EvidenceObject) (e : HistoryEntry) : Except Exn ReplayEvent := do
  let evidence ← (evidenceLinks (e.after.or e.before)).mapM (evidenceStatus rt fetched)
  pure ⟨e.seq, e.memoryId, e.op, e.version, e.actor, Records.isoformat e.changedAt, e.prevHash, e.rowHash, e.before,
    e.after, evidence⟩

def eventRows (t : Tables) (fromSeq toSeq : ℤ) (limit : ℕ) : List HistoryEntry :=
  ((t.history.filter fun e => fromSeq ≤ e.seq && e.seq ≤ toSeq).mergeSort fun a b => a.seq ≤ b.seq).take limit

/-- The objects that the rows' links name. -/
def fetchObjects (objects : List EvidenceObject) (rows : List HistoryEntry) : List EvidenceObject :=
  objects.filter fun o => (rows.flatMap rowRefs).contains o.id

def outOfRange (message : String) : Failure := .replayError ⟨"replay_seq_out_of_range", message, 422⟩

def replayEvents (rt : Runtime) (tenant : String) (t : Tables) (objects : List EvidenceObject) (fromSeq : ℤ)
    (toSeq : Option ℤ) (limit : ℤ) : Except Failure ReplayEvents :=
  let limit := pageLimit limit
  let historySeq := t.counter.getD 0
  let last := toSeq.getD historySeq
  if fromSeq < 1 then .error (outOfRange "from_seq starts at 1")
  else if historySeq < last then
    .error (outOfRange ("to_seq " ++ toString last ++ " is beyond the history counter " ++ toString historySeq))
  else
    let rows := eventRows t fromSeq last (limit + 1)
    let page := rows.take limit
    match page.mapM (replayEvent rt (fetchObjects objects page)) with
    | .error _ => .error .raised
    | .ok events => .ok ⟨tenant, fromSeq, last, historySeq, events,
        if limit < rows.length then page.getLast?.map fun e => e.seq + 1 else none⟩

open Foundations Foundations.Sha256 Ledger Blocks Evidence Records

variable {rt : Runtime} {tenant : String} {t : Tables} {blocks : List Block} {e : HistoryEntry} {b : Block}
  {m : Memory} {links : List EvidenceLink} {link : EvidenceLink} {objects : List EvidenceObject}

/-- The state of an evidence object, as a reader should report it. -/
def Classified (rt : Runtime) (objects : List EvidenceObject) (ref : String) (status : LinkStatus) : Prop :=
  match getEvidenceObject objects ref with
  | none => status = .missing
  | some obj => ∀ problems, verifyStored rt obj = .ok problems →
      status = if problems = [] then .intact else .tampered

/-- Whatever has become of the evidence objects, the object that the gate resolved is looked at again: a block reports
it missing or damaged, and the history shows its state. -/
structure Rechecked (rt : Runtime) (tenant : String) (t : Tables) (blocks : List Block) (e : HistoryEntry) (b : Block)
    (link : EvidenceLink) : Prop where
  missing : ∀ objects found, getEvidenceObject objects (linkRef link) = none →
    blockEvidenceProblems rt t blocks objects = .ok found →
    (blockLabel b, text ("cites evidence object " ++ linkRef link ++ ", which does not exist")) ∈ found
  damaged : ∀ objects found obj problems, getEvidenceObject objects (linkRef link) = some obj →
    verifyStored rt obj = .ok problems → blockEvidenceProblems rt t blocks objects = .ok found →
    ∀ p ∈ problems, (blockLabel b, text ("cites evidence object " ++ linkRef link ++ ": ") ++ p) ∈ found
  status : ∀ objects fromSeq toSeq limit page, replayEvents rt tenant t objects fromSeq toSeq limit = .ok page →
    ∀ event ∈ page.events, event.seq = e.seq →
      ∃ s ∈ event.evidence, s.kind = link.kind ∧ s.ref = link.ref ∧ Classified rt objects (linkRef link) s.status

lemma image_evidence (m : Memory) :
    ∃ fields, jarvisMemoryJson m = .object fields ∧ fields.lookup "evidence" = some m.evidence :=
  ⟨_, rfl, by simp [List.lookup_cons]⟩

lemma evidenceItems_image (h : m.evidence = linksJson links) :
    evidenceItems (some (jarvisMemoryJson m)) = .ok (links.map linkJson) := by
  obtain ⟨fields, hm, hf⟩ := image_evidence m
  rw [hm, evidenceItems, hf, h]
  rfl

lemma evidenceLinks_image (h : m.evidence = linksJson links) :
    evidenceLinks (some (jarvisMemoryJson m)) = links.map linkFields := by
  obtain ⟨fields, hm, hf⟩ := image_evidence m
  rw [hm, evidenceLinks, hf, h]
  simp only [linksJson, List.filterMap_map]
  exact List.filterMap_eq_map ▸ rfl

@[simp] lemma namesObject_linkFields (link : EvidenceLink) :
    namesObject (linkFields link) = decide (link.kind = linkKindName) := by
  simp [namesObject, linkFields, List.lookup_cons]

lemma linkObjectRef_linkFields (link : EvidenceLink) : linkObjectRef (linkFields link) = some link.ref := by
  have hne : link.ref ≠ "" := by
    intro h
    have := link.refLength.1
    rw [h] at this
    exact absurd this (by decide)
  simp [linkObjectRef, linkFields, hne]

lemma memberText_linkJson (link : EvidenceLink) :
    memberText (linkJson link) "kind" = some link.kind ∧ memberText (linkJson link) "ref" = some link.ref := by
  simp [memberText, member, linkJson, linkFields, List.lookup_cons]

lemma evidenceStatus_linkFields {fetched : List EvidenceObject} {status : LinkStatus}
    (h : linkStatus rt fetched (linkFields link) = .ok status) :
    evidenceStatus rt fetched (linkFields link) = .ok ⟨link.kind, link.ref, some link.note, status⟩ := by
  rw [evidenceStatus, h]
  simp [textMember, linkFields, List.lookup_cons, bind, Except.bind]

lemma evidenceStatus_ok {fetched : List EvidenceObject} {s : EvidenceStatus}
    (h : evidenceStatus rt fetched (linkFields link) = .ok s) :
    s.kind = link.kind ∧ s.ref = link.ref ∧ linkStatus rt fetched (linkFields link) = .ok s.status := by
  obtain ⟨status, hs, -⟩ := Checks.bind_ok h
  rw [evidenceStatus_linkFields hs] at h
  obtain rfl := Except.ok.inj h
  exact ⟨rfl, rfl, hs⟩

/-! ### The rows of a page -/

lemma mem_eventRows {fromSeq toSeq : ℤ} {limit : ℕ} {row : HistoryEntry} (h : row ∈ eventRows t fromSeq toSeq limit) :
    row ∈ t.history :=
  (List.mem_filter.mp ((List.mergeSort_perm _ _).mem_iff.mp (List.mem_of_mem_take h))).1

lemma seq_unique (ht : Logged t) {f : HistoryEntry} (he : e ∈ t.history) (hf : f ∈ t.history) (h : f.seq = e.seq) :
    f = e :=
  List.inj_on_of_nodup_map (List.pairwise_map.mpr (ht.pairwise.imp fun h => ne_of_lt h)) hf he h

/-- The rows behind a page, and what the page makes of each. -/
lemma replayEvents_ok {fromSeq : ℤ} {toSeq : Option ℤ} {limit : ℤ} {page : ReplayEvents}
    (h : replayEvents rt tenant t objects fromSeq toSeq limit = .ok page) :
    ∃ rows : List HistoryEntry, (∀ row ∈ rows, row ∈ t.history) ∧
      rows.mapM (replayEvent rt (fetchObjects objects rows)) = .ok page.events := by
  unfold replayEvents at h
  dsimp only at h
  by_cases hlow : fromSeq < 1
  · rw [if_pos hlow] at h
    cases h
  by_cases hhigh : t.counter.getD 0 < toSeq.getD (t.counter.getD 0)
  · rw [if_neg hlow, if_pos hhigh] at h
    cases h
  rw [if_neg hlow, if_neg hhigh] at h
  refine ⟨(eventRows t fromSeq (toSeq.getD (t.counter.getD 0)) (pageLimit limit + 1)).take (pageLimit limit),
    fun row hrow => mem_eventRows (List.mem_of_mem_take hrow), ?_⟩
  split at h
  case h_1 => cases h
  case h_2 events hevents =>
    obtain rfl := Except.ok.inj h
    exact hevents

lemma history_filter_one (ht : Logged t) (he : e ∈ t.history) :
    t.history.filter (fun f => e.seq ≤ f.seq && f.seq ≤ e.seq) = [e] := by
  have hnodup : t.history.Nodup := by
    refine ht.pairwise.imp ?_
    rintro a b hab rfl
    exact lt_irrefl _ hab
  apply List.perm_singleton.mp
  refine (List.perm_ext_iff_of_nodup (hnodup.filter _) (List.nodup_singleton e)).mpr fun f => ?_
  rw [List.mem_filter, List.mem_singleton]
  constructor
  · rintro ⟨hf, hseq⟩
    exact seq_unique ht he hf (by simp at hseq; omega)
  · rintro rfl
    exact ⟨he, by simp⟩

/-- A page that holds one entry only. -/
lemma replayEvents_one (ht : Logged t) (he : e ∈ t.history) {event : ReplayEvent}
    (hevent : replayEvent rt (fetchObjects objects [e]) e = .ok event) :
    ∃ page, replayEvents rt tenant t objects e.seq (some e.seq) 1 = .ok page ∧ page.events = [event] := by
  obtain ⟨hlow, hhigh⟩ := ht.seq_bounds he
  have hrows : eventRows t e.seq e.seq (pageLimit 1 + 1) = [e] := by
    rw [eventRows, history_filter_one ht he, List.mergeSort_singleton]
    rfl
  have hpage : [e].mapM (replayEvent rt (fetchObjects objects [e])) = .ok [event] := by
    rw [List.mapM_cons, hevent]
    rfl
  unfold replayEvents
  dsimp only
  rw [if_neg (by omega), if_neg (by rw [Option.getD_some, ht.counter]; omega), Option.getD_some, hrows]
  have htake : [e].take (pageLimit 1) = [e] := rfl
  rw [htake, hpage]
  exact ⟨_, rfl, rfl⟩

/-- The links of an entry, in its event. -/
lemma replayEvent_evidence {fetched : List EvidenceObject} {event : ReplayEvent} (himage : e.after = some (jarvisMemoryJson m))
    (hlinks : m.evidence = linksJson links) (h : replayEvent rt fetched e = .ok event) :
    event.seq = e.seq ∧ (links.map linkFields).mapM (evidenceStatus rt fetched) = .ok event.evidence := by
  obtain ⟨evidence, hev, hrest⟩ := Checks.bind_ok h
  obtain rfl := Except.ok.inj hrest
  rw [himage, Option.some_or, evidenceLinks_image hlinks] at hev
  exact ⟨rfl, hev⟩

lemma replayEvent_seq {fetched : List EvidenceObject} {event : ReplayEvent} (h : replayEvent rt fetched e = .ok event) :
    event.seq = e.seq := by
  obtain ⟨evidence, -, hrest⟩ := Checks.bind_ok h
  obtain rfl := Except.ok.inj hrest
  rfl

/-! ### Agreement -/

lemma ref_ne_empty (hid : matchesId (linkRef link) = true) : linkRef link ≠ "" := by
  intro h
  rw [h] at hid
  exact absurd hid (by decide)

lemma fetchObjects_row {rows : List HistoryEntry} {ref : String} (h : ref ∈ rows.flatMap rowRefs) :
    getEvidenceObject (fetchObjects objects rows) ref = getEvidenceObject objects ref := by
  rw [getEvidenceObject, getEvidenceObject, KeyedTable.row, KeyedTable.row, fetchObjects, List.find?_filter]
  refine congrArg (objects.find? ·) (funext fun o => ?_)
  by_cases ho : o.id = ref
  · simpa [ho] using h
  · simp [ho]

/-- A link that stands as the gate read it is looked at again. -/
lemma rechecked_of_same (ht : Logged t) (he : e ∈ t.history) (himage : e.after = some (jarvisMemoryJson m))
    (hlinks : m.evidence = linksJson links) (hb : b ∈ blocks) (hcovers : b.firstSeq ≤ e.seq ∧ e.seq ≤ b.lastSeq)
    (hlink : link ∈ links) (hid : matchesId (linkRef link) = true) (hkind : link.kind = linkKindName)
    (href : link.ref = linkRef link) : Rechecked rt tenant t blocks e b link := by
  have hne := ref_ne_empty hid
  obtain ⟨hktext, hrtext⟩ := memberText_linkJson link
  rw [hkind] at hktext
  rw [href] at hrtext
  have hcited : ∀ refs, citedRefs t b.firstSeq b.lastSeq = .ok refs → linkRef link ∈ refs := fun refs hrefs =>
    mem_citedRefs hrefs he hcovers (himage ▸ evidenceItems_image hlinks) (List.mem_map_of_mem hlink) hktext hrtext hne
  refine ⟨fun objects found hget hfound => ?_, fun objects found obj problems hget hv hfound p hp => ?_,
    fun objects fromSeq toSeq limit page hpage event hevent hseq => ?_⟩
  · obtain ⟨problems, hcite, hin⟩ := mem_blockEvidenceProblems hfound hb hcited
    rw [citeProblems, hget] at hcite
    obtain rfl := Except.ok.inj hcite
    exact hin _ List.mem_cons_self
  · obtain ⟨reported, hcite, hin⟩ := mem_blockEvidenceProblems hfound hb hcited
    rw [citeProblems, hget] at hcite
    simp only [hv] at hcite
    obtain rfl := Except.ok.inj hcite
    exact hin _ (List.mem_map_of_mem hp)
  · obtain ⟨rows, hrows, hevents⟩ := replayEvents_ok hpage
    obtain ⟨row, hrow, hrowEvent⟩ := (Checks.mapM_ok_iff hevents).2 event hevent
    obtain rfl : row = e := seq_unique ht he (hrows row hrow) ((replayEvent_seq hrowEvent).symm.trans hseq)
    obtain ⟨-, hstatuses⟩ := replayEvent_evidence himage hlinks hrowEvent
    obtain ⟨s, hs, hstatus⟩ := (Checks.mapM_ok_iff hstatuses).1 _ (List.mem_map_of_mem hlink)
    obtain ⟨hsk, hsr, hls⟩ := evidenceStatus_ok hstatus
    refine ⟨s, hs, hsk, hsr, ?_⟩
    have hfetched : getEvidenceObject (fetchObjects objects rows) (linkRef link) = getEvidenceObject objects (linkRef link) := by
      refine fetchObjects_row (List.mem_flatMap.mpr ⟨row, hrow, ?_⟩)
      rw [rowRefs, himage, evidenceLinks_image hlinks]
      refine List.mem_filterMap.mpr ⟨linkFields link, List.mem_filter.mpr ⟨?_, by simp [hkind]⟩, ?_⟩
      · exact List.mem_append_left _ (List.mem_map_of_mem hlink)
      · rw [linkObjectRef_linkFields, href]
    rw [linkStatus, if_neg (by simp [hkind]), linkObjectRef_linkFields, href, Option.bind_some, hfetched] at hls
    rw [Classified]
    cases hget : getEvidenceObject objects (linkRef link) with
    | none =>
      rw [hget] at hls
      exact (Except.ok.inj hls).symm
    | some obj =>
      intro problems hv
      simp only [hget, hv] at hls
      exact (Except.ok.inj hls).symm

/-- With the one object that the gate resolved in the store, its link is shown intact only if it stands as the gate
read it. -/
lemma same_of_rechecked (ht : Logged t) (he : e ∈ t.history) (himage : e.after = some (jarvisMemoryJson m))
    (hlinks : m.evidence = linksJson links) {obj : EvidenceObject} (hid : obj.id = linkRef link)
    (hv : verifyStored rt obj = .ok []) (h : Rechecked rt tenant t blocks e b link) :
    link.kind = linkKindName ∧ link.ref = linkRef link := by
  have hfetched : ∀ o ∈ fetchObjects [obj] [e], o = obj := fun o ho => List.mem_singleton.mp (List.mem_filter.mp ho).1
  have hstatus : ∀ l : EvidenceLink, ∃ status, linkStatus rt (fetchObjects [obj] [e]) (linkFields l) = .ok status := by
    intro l
    by_cases hk : l.kind = linkKindName
    · rw [linkStatus, if_neg (by simp [hk])]
      cases hget : (linkObjectRef (linkFields l)).bind (getEvidenceObject (fetchObjects [obj] [e])) with
      | none => exact ⟨_, rfl⟩
      | some o =>
        obtain ⟨r, -, hr⟩ := Option.bind_eq_some_iff.mp hget
        rw [hfetched o (KeyedTable.row_mem hr)]
        simp only [hv]
        exact ⟨_, rfl⟩
    · exact ⟨_, if_pos (by simp [hk])⟩
  have hstatuses : ∀ fields ∈ links.map linkFields, ∃ s, evidenceStatus rt (fetchObjects [obj] [e]) fields = .ok s := by
    intro fields hf
    obtain ⟨l, -, rfl⟩ := List.mem_map.mp hf
    obtain ⟨status, hs⟩ := hstatus l
    exact ⟨_, evidenceStatus_linkFields hs⟩
  obtain ⟨evidence, hevidence⟩ := Checks.mapM_exists hstatuses
  obtain ⟨event, hevent⟩ : ∃ event, replayEvent rt (fetchObjects [obj] [e]) e = .ok event := by
    rw [replayEvent, himage, Option.some_or, evidenceLinks_image hlinks, hevidence]
    exact ⟨_, rfl⟩
  obtain ⟨page, hpage, hevents⟩ := @replayEvents_one rt tenant t e [obj] ht he event hevent
  obtain ⟨hseq, hmine⟩ := replayEvent_evidence himage hlinks hevent
  obtain ⟨s, hs, hsk, hsr, hclass⟩ := h.status [obj] _ _ _ page hpage event (by simp [hevents]) hseq
  obtain ⟨fields, hfields, hof⟩ := (Checks.mapM_ok_iff hmine).2 s hs
  obtain ⟨l, -, rfl⟩ := List.mem_map.mp hfields
  obtain ⟨hk, hr, hls⟩ := evidenceStatus_ok hof
  have hget : getEvidenceObject [obj] (linkRef link) = some obj := by
    simp [getEvidenceObject, KeyedTable.row, hid]
  rw [Classified, hget] at hclass
  have hintact : s.status = .intact := hclass [] hv
  rw [hintact, linkStatus] at hls
  by_cases hkind : l.kind = linkKindName
  · refine ⟨hsk.symm.trans (hk.trans hkind), ?_⟩
    rw [if_neg (by simp [hkind]), linkObjectRef_linkFields, Option.bind_some] at hls
    cases hfound : getEvidenceObject (fetchObjects [obj] [e]) l.ref with
    | none => simp [hfound] at hls
    | some o =>
      rw [← hsr, hr, ← KeyedTable.row_key hfound, hfetched o (KeyedTable.row_mem hfound), hid]
  · simp [hkind] at hls

lemma nesting_pos : 0 < 900 := Nat.succ_pos 899

def plainRuntime : Runtime :=
  ⟨⟨id, 900, 900, nesting_pos, nesting_pos⟩, fun _ => true, PyStr.ofString, fun _ => []⟩

def factId : String := "eo:sha256:3afc0b9d6c6660cf69bfb8ac35728b95e70a2a97f06d0c20bfb484febf4c1d22"

def factObject : EvidenceObject where
  id := factId
  schemaId := cesFact
  payload := [(text "observation", .str (text "seen")), (text "source", .str (text "lab.txt")),
    (text "method", .str (text "file"))]
  pointer := none
  sizeBytes := 109
  createdAt := "2026-10-03T12:00:00+00:00"
  createdBy := "operator"

lemma factObject_intact : verifyStored plainRuntime factObject = .ok [] := by
  have h : (verifyStored plainRuntime factObject).toOption = some [] := by decide +kernel
  cases hv : verifyStored plainRuntime factObject with
  | error e => simp [hv, Except.toOption] at h
  | ok problems => simpa [hv, Except.toOption] using h

lemma factId_length : 1 ≤ factId.length ∧ factId.length ≤ 1000 := by decide

def linkTo (kind : String) : EvidenceLink := ⟨kind, factId, "", factId_length, Nat.zero_le 500⟩

/-- A record with one link, as it is stored. -/
def citing (link : EvidenceLink) : Memory where
  tenantKey := "operator"
  id := "m1"
  version := 1
  content := "note"
  contentSha256 := genesis
  createdAt := 0
  updatedAt := 0
  sourceAgent := "chat"
  sessionId := "s1"
  type := .fact
  status := .verified
  confidence := ⟨5, 1⟩
  subject := none
  supersedes := none
  tags := []
  evidence := linksJson [link]

def citingSettings : Settings := ⟨"operator", some "chat", none, 0, id⟩

def citingEntry (link : EvidenceLink) : HistoryEntry := capturedEntry citingSettings Tables.empty (.insert (citing link))

/-- The tables after the record is created. -/
def cited (link : EvidenceLink) : Tables := ⟨[citing link], [citingEntry link], [(citingEntry link).toHead], some 1⟩

lemma cited_logged {link : EvidenceLink} (hc : (citing link).checks = true) : Logged (cited link) := by
  have h : insertRow citingSettings Tables.empty (citing link) = .ok (cited link) := by
    simp only [insertRow, checkSupersedes, require, hc]
    rfl
  exact (insertRow_captured empty_captured h).toLogged

def citingBlock (link : EvidenceLink) : Block :=
  let root := (merkleRoot [(citingEntry link).rowHash]).getD genesis
  ⟨"operator", 1, 1, 1, 1, genesis, root, blockHash "operator" 1 1 1 1 genesis root 1, 1, 0, "operator"⟩

lemma linkTo_checked {kind : String} (hk : PyText.lower (PyText.strip kind) = linkKindName) :
    Evidence.checkLinks [linkTo kind] (resolveEvidence plainRuntime [factObject]) = .ok () := by
  have hid : matchesId (linkRef (linkTo kind)) = true := by
    change matchesId (PyText.strip factId) = true
    decide
  have href : linkRef (linkTo kind) = factId := by
    change PyText.strip factId = factId
    decide
  have hresolve : resolveEvidence plainRuntime [factObject] factId = .ok (some ⟨factId, cesFact⟩) := by
    rw [resolveEvidence, getEvidenceObject, KeyedTable.row, List.find?_cons_of_pos (by simp [factObject])]
    simp only [factObject_intact]
    rfl
  have hreasons : linkReasons (resolveEvidence plainRuntime [factObject]) (linkTo kind) = .ok [] := by
    rw [href] at hid
    rw [linkReasons, if_neg (by simpa [linkKind, linkTo] using hk)]
    simp only [hid, href, hresolve, Bool.not_true, Bool.false_eq_true, if_false]
  rw [Evidence.checkLinks, List.mapM_cons, hreasons]
  rfl

end ContinuityLedger.Replay
