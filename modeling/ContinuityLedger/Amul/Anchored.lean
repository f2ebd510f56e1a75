import ContinuityLedger.Amul.Upheld
import ContinuityLedger.Foundations.Histories
import ContinuityLedger.Foundations.Prefixed
import ContinuityLedger.Recall.Summary

/-! Anchoring records and verifying the field: the loop of `anchor_memory`, runs of anchorings with the lineage of every artifact, a record
that has not changed, and what the verification says of the records. -/

namespace ContinuityLedger.Amul

open Foundations Foundations.Sha256 Foundations.Histories Foundations.Delimited Records

/-! ### anchor_memory -/

/-- `_artifact_id`. -/
def artifactId (_ledgerId : String) (resolution : ArtifactResolution) (sha : String) (seq : ℕ) : String :=
  "art-" ++ String.ofList (sha.toList.take 12) ++ "-" ++ String.ofList (resolution.text.toList.take 1) ++ toString seq

structure AnchorReport where
  ledgerId : String
  created : List String
  unchanged : List ArtifactResolution
deriving DecidableEq

/-- A call: the record, who calls, and what the clock says while an artifact is made. -/
structure AnchorCall where
  record : MemoryRecord String
  actor : String
  clock : ArtifactResolution → String × String

def payloadOf (rec : MemoryRecord String) : ArtifactResolution → String
  | .detail => rec.content
  | .summary => Recall.makeSummary rec.content
  | .evidence => Recall.renderResolution rec .evidence

def resolutions : List ArtifactResolution := [.detail, .summary, .evidence]

/-- What the loop has come to. -/
structure Anchoring where
  store : Store
  report : AnchorReport
  canonicalDetailId : Option String

/-- `parents`: the version before, or that of the record which a first detail supersedes. -/
def parentsOf (latest : String → ArtifactResolution → Option Artifact) (rec : MemoryRecord String) (resolution : ArtifactResolution) :
    List String :=
  match latest rec.id resolution with
  | some prev => [prev.artifactId]
  | none =>
    if resolution = .detail then
      match rec.supersedes with
      | some target => if target = "" then [] else (latest target .detail).toList.map (·.artifactId)
      | none => []
    else []

def artifactOf (call : AnchorCall) (f : AmulField) (canonicalDetailId : Option String) (resolution : ArtifactResolution) : Artifact where
  artifactId := artifactId call.record.id resolution (sha256Text (payloadOf call.record resolution)) f.count
  ledgerId := call.record.id
  resolution := resolution
  payload := payloadOf call.record resolution
  payloadSha256 := sha256Text (payloadOf call.record resolution)
  authorityClass := call.record.status.text
  lineageParentIds := parentsOf f.latest call.record resolution
  derivedFrom := if resolution = .detail then [] else canonicalDetailId.toList
  provenanceChain := [⟨call.actor, "anchored", (call.clock resolution).1, some ("ledger:" ++ call.record.id ++ "@" ++ call.record.updatedAt)⟩]
  createdAt := (call.clock resolution).2
  schemaVersion := schema

/-- The body of the loop. -/
def anchorOne (py : Python) (call : AnchorCall) (st : Anchoring) (resolution : ArtifactResolution) : Anchoring :=
  let prev := (st.store.field.latest call.record.id resolution).filter fun p => p.payloadSha256 = sha256Text (payloadOf call.record resolution)
  match prev with
  | some prev =>
    { st with
      report := { st.report with unchanged := st.report.unchanged ++ [resolution] }
      canonicalDetailId := if resolution = .detail then some prev.artifactId else st.canonicalDetailId }
  | none =>
    let art := artifactOf call st.store.field st.canonicalDetailId resolution
    { store := (Event.append art).step py st.store
      report := { st.report with created := st.report.created ++ [art.artifactId] }
      canonicalDetailId := if resolution = .detail then some art.artifactId else st.canonicalDetailId }

/-- The loop over the first of the resolutions. -/
def anchorFirst (py : Python) (call : AnchorCall) (s : Store) (k : ℕ) : Anchoring :=
  (resolutions.take k).foldl (anchorOne py call) ⟨Event.read.step py s, ⟨call.record.id, [], []⟩, none⟩

/-- `anchor_memory`. -/
def anchorMemory (py : Python) (call : AnchorCall) (s : Store) : Anchoring := anchorFirst py call s 3

/-! ### Runs -/

inductive AnchorEvent
  | anchor (call : AnchorCall)
  /-- The process ends when the first `k` resolutions are done. -/
  | interrupted (call : AnchorCall) (k : ℕ)
  | restart
  | compact (call : CompactCall)
  | verify

namespace AnchorEvent

def step (py : Python) (s : GcStore) : AnchorEvent → GcStore
  | anchor call => { s with toStore := (anchorMemory py call s.toStore).store }
  | interrupted call k => { s with toStore := ⟨(anchorFirst py call s.toStore k).store.file, .fresh⟩ }
  | restart => (GcEvent.field .restart).step py s
  | compact call => (GcEvent.compact call).step py s
  | verify => GcEvent.verify.step py s

/-- The record that it anchors. -/
def record? : AnchorEvent → Option (MemoryRecord String)
  | anchor call | interrupted call _ => some call.record
  | _ => none

def run (py : Python) (events : List AnchorEvent) : GcStore := events.foldl (step py) .empty

end AnchorEvent

/-! ### Lineage -/

def latestOf (as : List Artifact) (memoryId : String) (resolution : ArtifactResolution) : Option Artifact :=
  latest (fun a => decide (a.ledgerId = memoryId) && decide (a.resolution = resolution)) as

/-- An artifact that was made of the record, behind those before it. -/
structure Renders (rec : MemoryRecord String) (before : List Artifact) (a : Artifact) : Prop where
  ledger : a.ledgerId = rec.id
  payload : a.payload = payloadOf rec a.resolution
  genuine : Genuine a
  authority : a.authorityClass = rec.status.text
  identity : a.artifactId = artifactId rec.id a.resolution a.payloadSha256 before.length
  parents : a.lineageParentIds = parentsOf (latestOf before) rec a.resolution
  changed : ∀ p, latestOf before rec.id a.resolution = some p → p.payloadSha256 ≠ a.payloadSha256
  detail : a.resolution = .detail → a.derivedFrom = []
  derived : a.resolution ≠ .detail → ∃ d, latestOf before rec.id .detail = some d ∧ a.derivedFrom = [d.artifactId] ∧
    sha256Text d.payload = sha256Text rec.content

/-- Each artifact was made of one of the records. -/
def Lineage (recs : MemoryRecord String → Prop) (as : List Artifact) : Prop :=
  Recorded (fun before a => ∃ rec, recs rec ∧ Renders rec before a) as

/-- The store holds these artifacts in whole lines, made of such records. -/
structure AnchorInv (recs : MemoryRecord String → Prop) (s : GcStore) (as : List Artifact) : Prop where
  gc : GcInv s as
  whole : s.file = as.flatMap line
  lineage : Lineage recs as

/-! ### Ids -/

/-- A number at the end of a text, behind a character that is no digit. -/
lemma number_last {xs ys : List Char} {c d : Char} {m n : ℕ} (hc : c.isDigit = false) (hd : d.isDigit = false)
    (h : xs ++ c :: (toString m).toList = ys ++ d :: (toString n).toList) : m = n := by
  have hdigits (k : ℕ) : ∀ x ∈ (toString k).toList.reverse, x.isDigit = true := fun x hx =>
    Nat.isDigit_of_mem_toDigits (b := 10) (n := k) (by decide) (by decide) (by simpa [Nat.repr] using hx)
  have htail {zs : List Char} {e : Char} (he : e.isDigit = false) (k : ℕ) :
      (zs ++ e :: (toString k).toList).reverse.takeWhile Char.isDigit = (toString k).toList.reverse := by
    rw [List.reverse_append, List.reverse_cons, List.append_assoc, List.takeWhile_append_of_pos (hdigits k), List.singleton_append,
      List.takeWhile_cons_of_neg (by simp [he]), List.append_nil]
  have heq := (htail hc m).symm.trans ((congrArg (fun l => l.reverse.takeWhile Char.isDigit) h).trans (htail hd n))
  exact nat_text_injective (String.toList_injective (List.reverse_injective heq))

/-- An id tells how many artifacts came before. -/
lemma seq_of_artifactId {l l' sha sha' : String} {r r' : ArtifactResolution} {m n : ℕ}
    (h : artifactId l r sha m = artifactId l' r' sha' n) : m = n := by
  have hletter (r : ArtifactResolution) : ∃ c : Char, c.isDigit = false ∧ r.text.toList.take 1 = [c] := by
    cases r
    · exact ⟨'s', by decide, by decide⟩
    · exact ⟨'d', by decide, by decide⟩
    · exact ⟨'e', by decide, by decide⟩
  obtain ⟨c, hc, hrc⟩ := hletter r
  obtain ⟨d, hd, hrd⟩ := hletter r'
  have hchars := congrArg String.toList h
  simp only [artifactId, String.toList_append, String.toList_ofList, hrc, hrd] at hchars
  rw [List.append_assoc _ [c], List.append_assoc _ [d], List.singleton_append, List.singleton_append] at hchars
  exact number_last hc hd hchars

/-! ### One resolution -/

section

variable {py : Python} {recs : MemoryRecord String → Prop} {s : GcStore} {as : List Artifact} {call : AnchorCall}

lemma Lineage.genuine (h : Lineage recs as) : ∀ a ∈ as, Genuine a := fun a ha => by
  obtain ⟨n, rec, -, hrenders⟩ := Recorded.mem h ha
  exact hrenders.genuine

lemma Lineage.nodup (h : Lineage recs as) : (as.map (·.artifactId)).Nodup := by
  refine Recorded.nodup (g := fun n a => artifactId a.ledgerId a.resolution a.payloadSha256 n)
    (fun m n v w heq => seq_of_artifactId heq) fun n a ha => ?_
  obtain ⟨rec, -, hrenders⟩ := h n a ha
  exact hrenders.ledger ▸ hrenders.identity

/-- The field shows all of the artifacts. -/
lemma Lineage.all (h : Lineage recs as) : (AmulField.holding as).all = as :=
  AmulField.all_of_unique fun _ ha _ hb heq => List.inj_on_of_nodup_map h.nodup ha hb heq

lemma Lineage.latest (h : Lineage recs as) (memoryId : String) (resolution : ArtifactResolution) :
    (AmulField.holding as).latest memoryId resolution = latestOf as memoryId resolution := by
  rw [AmulField.latest, AmulField.byLedger, h.all, List.filter_filter, latestOf, Histories.latest]
  refine congrArg (fun p => (as.filter p).getLast?) (funext fun a => ?_)
  exact Bool.and_comm _ _

lemma ended_lines (as : List Artifact) : Ended (as.flatMap line) := by
  induction as using List.reverseRecOn with
  | nil => exact .inl rfl
  | append_singleton as a _ =>
    refine .inr ?_
    rw [List.flatMap_append, List.flatMap_singleton, line, utf8Chars_append, ← List.append_assoc]
    exact List.getLast?_concat

/-- The newest version has the record's payload. -/
def Stands (rec : MemoryRecord String) (as : List Artifact) (r : ArtifactResolution) : Prop :=
  ∃ p, latestOf as rec.id r = some p ∧ p.payloadSha256 = sha256Text (payloadOf rec r)

/-- In the middle of a call. -/
structure Midway (recs : MemoryRecord String → Prop) (s : GcStore) (as : List Artifact) (st : Anchoring) : Prop where
  inv : AnchorInv recs { s with toStore := st.store } as
  field : st.store.field = .holding as

/-- The detail is done, and the loop has its id. -/
def Derivable (rec : MemoryRecord String) (as : List Artifact) (st : Anchoring) : Prop :=
  ∃ d, latestOf as rec.id .detail = some d ∧ st.canonicalDetailId = some d.artifactId ∧ d.payloadSha256 = sha256Text rec.content

variable {st : Anchoring} {r : ArtifactResolution}

lemma latestOf_append_not {a : Artifact} {id : String} (h : a.ledgerId ≠ id ∨ a.resolution ≠ r) :
    latestOf (as ++ [a]) id r = latestOf as id r := by
  refine latest_append_not ?_ as
  rcases h with h | h <;> simp [h]

lemma renders_artifactOf (h : Midway recs s as st) (hderived : r ≠ .detail → Derivable call.record as st)
    (hchanged : ∀ p, latestOf as call.record.id r = some p → p.payloadSha256 ≠ sha256Text (payloadOf call.record r)) :
    Renders call.record as (artifactOf call st.store.field st.canonicalDetailId r) where
  ledger := rfl
  payload := rfl
  genuine := rfl
  authority := rfl
  identity := by
    rw [artifactOf, h.field, AmulField.count, AmulField.holding_order, List.length_map]
  parents := by
    have hlatest : st.store.field.latest = latestOf as := by
      rw [h.field]
      exact funext fun id => funext fun r => h.inv.lineage.latest id r
    rw [artifactOf, hlatest]
  changed := hchanged
  detail hr := if_pos hr
  derived hr := by
    obtain ⟨d, hd, hid, hsha⟩ := hderived hr
    refine ⟨d, hd, ?_, (h.inv.lineage.genuine d (latest_mem hd).1).trans hsha⟩
    rw [artifactOf, hid]
    exact if_neg hr

/-- A version that has not changed is left as it is, and one that has comes behind the others. -/
lemma anchorOne_cases (hpy : 3 ≤ py.loadsNesting) (hrec : recs call.record) (h : Midway recs s as st)
    (hderived : r ≠ .detail → Derivable call.record as st) :
    (∃ p, latestOf as call.record.id r = some p ∧ p.payloadSha256 = sha256Text (payloadOf call.record r) ∧
      anchorOne py call st r = { st with
        report := { st.report with unchanged := st.report.unchanged ++ [r] }
        canonicalDetailId := if r = .detail then some p.artifactId else st.canonicalDetailId }) ∨
      ∃ a, a.ledgerId = call.record.id ∧ a.resolution = r ∧ a.payloadSha256 = sha256Text (payloadOf call.record r) ∧
        Midway recs s (as ++ [a]) (anchorOne py call st r) ∧
        (anchorOne py call st r).canonicalDetailId = if r = .detail then some a.artifactId else st.canonicalDetailId := by
  have hlatest : st.store.field.latest call.record.id r = latestOf as call.record.id r := by
    rw [h.field]
    exact h.inv.lineage.latest _ _
  cases hprev : (latestOf as call.record.id r).filter fun p => p.payloadSha256 = sha256Text (payloadOf call.record r) with
  | some p =>
    obtain ⟨hp, hsha⟩ := Option.filter_eq_some_iff.mp hprev
    refine .inl ⟨p, hp, by simpa using hsha, ?_⟩
    simp only [anchorOne, hlatest, hprev]
  | none =>
    have hchanged : ∀ p, latestOf as call.record.id r = some p → p.payloadSha256 ≠ sha256Text (payloadOf call.record r) := by
      intro p hp hsha
      rw [hp, Option.filter_some, if_pos (by simpa using hsha)] at hprev
      nomatch hprev
    have hrenders := renders_artifactOf h hderived hchanged
    have hone : anchorOne py call st r = {
        store := (Event.append (artifactOf call st.store.field st.canonicalDetailId r)).step py st.store
        report := { st.report with created := st.report.created ++ [(artifactOf call st.store.field st.canonicalDetailId r).artifactId] }
        canonicalDetailId := if r = .detail then some (artifactOf call st.store.field st.canonicalDetailId r).artifactId
          else st.canonicalDetailId } := by
      simp only [anchorOne, hlatest, hprev]
    refine .inr ⟨artifactOf call st.store.field st.canonicalDetailId r, rfl, rfl, rfl, ?_, ?_⟩
    · rw [hone]
      have hended : Ended st.store.file := by
        rw [show st.store.file = as.flatMap line from h.inv.whole]
        exact ended_lines as
      have hgc := h.inv.gc.step_field hpy (e := .append (artifactOf call st.store.field st.canonicalDetailId r)) (fun _ => hended)
        fun a ha => by
          obtain rfl := Option.some.inj ha
          exact hrenders.genuine
      refine ⟨⟨hgc, ?_, h.inv.lineage.append ⟨call.record, hrec, hrenders⟩⟩, ?_⟩
      · rw [List.flatMap_append, List.flatMap_singleton, ← show st.store.file = as.flatMap line from h.inv.whole]
        rfl
      · change (st.store.field.ensureLoaded py st.store.file).add _ = _
        rw [h.field, AmulField.ensureLoaded, if_pos (AmulField.holding_loaded as), AmulField.holding_append]
    · rw [hone]

end

/-! ### The loop -/

section

variable {py : Python} {recs : MemoryRecord String → Prop} {s : GcStore} {as new : List Artifact} {call : AnchorCall} {st : Anchoring}
  {r : ArtifactResolution} {rec : MemoryRecord String}

lemma latestOf_append_all {id : String} (h : ∀ a ∈ new, a.ledgerId ≠ id ∨ a.resolution ≠ r) :
    latestOf (as ++ new) id r = latestOf as id r := by
  refine latest_append_all (fun a ha => ?_) as
  rcases h a ha with h | h <;> simp [h]

lemma Stands.append (h : Stands rec as r) (hnew : ∀ a ∈ new, a.ledgerId ≠ rec.id ∨ a.resolution ≠ r) : Stands rec (as ++ new) r := by
  obtain ⟨p, hp, hsha⟩ := h
  exact ⟨p, (latestOf_append_all hnew).trans hp, hsha⟩

/-- Behind the body of the loop the resolution stands. -/
lemma anchorOne_stands (hpy : 3 ≤ py.loadsNesting) (hrec : recs call.record) (h : Midway recs s as st)
    (hderived : r ≠ .detail → Derivable call.record as st) : ∃ new, Midway recs s (as ++ new) (anchorOne py call st r) ∧
      (∀ a ∈ new, a.ledgerId = call.record.id ∧ a.resolution = r) ∧ Stands call.record (as ++ new) r ∧
      Derivable call.record (as ++ new) (anchorOne py call st r) := by
  rcases anchorOne_cases hpy hrec h hderived with ⟨p, hp, hsha, hone⟩ | ⟨a, hledger, hr, hsha, hmid, hcanonical⟩
  · refine ⟨[], ?_, List.forall_mem_nil _, ?_, ?_⟩
    · rw [hone, List.append_nil]
      exact ⟨h.inv, h.field⟩
    · rw [List.append_nil]
      exact ⟨p, hp, hsha⟩
    · rw [hone, List.append_nil]
      by_cases hdetail : r = .detail
      · subst hdetail
        exact ⟨p, hp, rfl, hsha⟩
      · obtain ⟨d, hd, hid, hcontent⟩ := hderived hdetail
        exact ⟨d, hd, (if_neg hdetail).trans hid, hcontent⟩
  · have hlatest : latestOf (as ++ [a]) call.record.id r = some a := latest_append_of (by simp [hledger, hr]) as
    refine ⟨[a], hmid, by simp [hledger, hr], ⟨a, hlatest, hsha⟩, ?_⟩
    by_cases hdetail : r = .detail
    · subst hdetail
      exact ⟨a, hlatest, hcanonical.trans (if_pos rfl), hsha⟩
    · obtain ⟨d, hd, hid, hcontent⟩ := hderived hdetail
      have hother : latestOf (as ++ [a]) call.record.id .detail = some d := by
        rw [latestOf_append_not (.inr (by rw [hr]; exact hdetail)), hd]
      exact ⟨d, hother, hcanonical.trans ((if_neg hdetail).trans hid), hcontent⟩

/-- The loop behind the detail. -/
lemma anchorLoop (hpy : 3 ≤ py.loadsNesting) (hrec : recs call.record) (rs : List ArtifactResolution) (h : Midway recs s as st)
    (hderived : Derivable call.record as st) : ∃ new, Midway recs s (as ++ new) (rs.foldl (anchorOne py call) st) ∧
      (∀ a ∈ new, a.ledgerId = call.record.id ∧ a.resolution ∈ rs) ∧ ∀ r ∈ rs, Stands call.record (as ++ new) r := by
  induction rs generalizing as st with
  | nil => exact ⟨[], by rwa [List.append_nil], List.forall_mem_nil _, List.forall_mem_nil _⟩
  | cons r rs ih =>
    obtain ⟨one, hmid, hone, hstands, hderivable⟩ := anchorOne_stands hpy hrec h (fun _ => hderived) (r := r)
    obtain ⟨rest, hmid', hrest, hall⟩ := ih hmid hderivable
    rw [List.append_assoc] at hmid' hall
    refine ⟨one ++ rest, hmid', ?_, List.forall_mem_cons.mpr ⟨?_, hall⟩⟩
    · intro a ha
      rcases List.mem_append.mp ha with ha | ha
      · exact ⟨(hone a ha).1, (hone a ha).2 ▸ List.mem_cons_self⟩
      · exact ⟨(hrest a ha).1, List.mem_cons_of_mem r (hrest a ha).2⟩
    · by_cases hr : r ∈ rs
      · exact hall r hr
      · rw [← List.append_assoc]
        refine hstands.append fun a ha => .inr ?_
        rintro rfl
        exact hr (hrest a ha).2

/-- A call leaves the artifacts before it as they are, and behind a whole one the record stands. -/
lemma anchorFirst_inv (hpy : 3 ≤ py.loadsNesting) (hrec : recs call.record) (h : AnchorInv recs s as) (k : ℕ) :
    ∃ new, Midway recs s (as ++ new) (anchorFirst py call s.toStore k) ∧ (∀ a ∈ new, a.ledgerId = call.record.id) ∧
      (k = 3 → ∀ r, Stands call.record (as ++ new) r) := by
  have hstart : Midway recs s as ⟨Event.read.step py s.toStore, ⟨call.record.id, [], []⟩, none⟩ := by
    have hfield : s.field.ensureLoaded py s.file = .holding as := h.gc.ensureLoaded hpy
    exact ⟨⟨⟨h.gc.file, .inr hfield, h.gc.genuine, h.gc.chain⟩, h.whole, h.lineage⟩, hfield⟩
  cases k with
  | zero => exact ⟨[], by rwa [List.append_nil], List.forall_mem_nil _, fun h => nomatch h⟩
  | succ k =>
    obtain ⟨one, hmid, hone, hstands, hderivable⟩ := anchorOne_stands hpy hrec hstart (r := .detail) (fun hne => absurd rfl hne)
    obtain ⟨rest, hmid', hrest, hall⟩ := anchorLoop hpy hrec ([ArtifactResolution.summary, .evidence].take k) hmid hderivable
    rw [List.append_assoc] at hmid' hall
    refine ⟨one ++ rest, hmid', ?_, ?_⟩
    · intro a ha
      rcases List.mem_append.mp ha with ha | ha
      · exact (hone a ha).1
      · exact (hrest a ha).1
    · rintro hk r
      obtain rfl : k = 2 := Nat.succ.inj hk
      cases r with
      | summary => exact hall _ (by decide)
      | evidence => exact hall _ (by decide)
      | detail =>
        rw [← List.append_assoc]
        refine hstands.append fun a ha => .inr ?_
        have hr := (hrest a ha).2
        rintro heq
        rw [heq] at hr
        revert hr
        decide

/-- Where the record stands, a call appends nothing. -/
lemma anchorFirst_stands (hpy : 3 ≤ py.loadsNesting) (h : AnchorInv recs s as) (hstands : ∀ r, Stands call.record as r) (k : ℕ) :
    (anchorFirst py call s.toStore k).store = ⟨s.file, .holding as⟩ ∧
      (anchorFirst py call s.toStore k).report = ⟨call.record.id, [], resolutions.take k⟩ := by
  have hone (st : Anchoring) (hfield : st.store.field = .holding as) (r : ArtifactResolution) : ∃ canonical,
      anchorOne py call st r = ⟨st.store, { st.report with unchanged := st.report.unchanged ++ [r] }, canonical⟩ := by
    obtain ⟨p, hp, hsha⟩ := hstands r
    have hlatest : st.store.field.latest call.record.id r = some p := by
      rw [hfield, h.lineage.latest]
      exact hp
    simp only [anchorOne, hlatest, Option.filter_some, hsha, decide_true, if_true]
    exact ⟨_, rfl⟩
  have hloop (rs : List ArtifactResolution) (st : Anchoring) (hfield : st.store.field = .holding as) :
      (rs.foldl (anchorOne py call) st).store = st.store ∧
        (rs.foldl (anchorOne py call) st).report = { st.report with unchanged := st.report.unchanged ++ rs } := by
    induction rs generalizing st with
    | nil => exact ⟨rfl, by rw [List.append_nil]; rfl⟩
    | cons r rs ih =>
      obtain ⟨canonical, hstep⟩ := hone st hfield r
      obtain ⟨hstore, hreport⟩ := ih (anchorOne py call st r) (by rw [hstep]; exact hfield)
      rw [hstep] at hstore hreport
      rw [List.foldl_cons, hstep]
      exact ⟨hstore, by rw [hreport, List.append_assoc]; rfl⟩
  have hfield : s.field.ensureLoaded py s.file = .holding as := h.gc.ensureLoaded hpy
  obtain ⟨hstore, hreport⟩ := hloop (resolutions.take k) ⟨Event.read.step py s.toStore, ⟨call.record.id, [], []⟩, none⟩ hfield
  refine ⟨hstore.trans ?_, hreport⟩
  change (⟨s.file, s.field.ensureLoaded py s.file⟩ : Store) = _
  rw [hfield]

end

/-! ### Runs -/

/-- The text of a record that is rendered. -/
def SameText (rec rec' : MemoryRecord String) : Prop := rec.id = rec'.id ∧ rec.content = rec'.content ∧ rec.evidence = rec'.evidence

/-- It is anchored, and with no other text after that. -/
def Anchors (rec : MemoryRecord String) (events : List AnchorEvent) : Prop :=
  ∃ before call after, events = before ++ .anchor call :: after ∧ SameText call.record rec ∧
    ∀ e ∈ after, ∀ rec' ∈ e.record?, rec'.id = rec.id → SameText rec' rec

section

variable {py : Python} {recs : MemoryRecord String → Prop} {s : GcStore} {as : List Artifact} {rec rec' : MemoryRecord String}

lemma Stands.congr {r : ArtifactResolution} (h : SameText rec rec') (hs : Stands rec as r) : Stands rec' as r := by
  obtain ⟨hid, hcontent, hevidence⟩ := h
  have hpayload : payloadOf rec r = payloadOf rec' r := by
    cases r <;> simp only [payloadOf, Recall.renderResolution, hcontent, hevidence]
  rwa [Stands, hid, hpayload] at hs

/-- An event appends artifacts of its record only. -/
lemma anchor_step (hpy : 3 ≤ py.loadsNesting) (h : AnchorInv recs s as) {e : AnchorEvent} (he : ∀ rec ∈ e.record?, recs rec) :
    ∃ new, AnchorInv recs (e.step py s) (as ++ new) ∧ ∀ a ∈ new, ∃ rec ∈ e.record?, a.ledgerId = rec.id := by
  cases e with
  | anchor call =>
    obtain ⟨new, hmid, hnew, -⟩ := anchorFirst_inv hpy (he _ rfl) h 3
    exact ⟨new, hmid.inv, fun a ha => ⟨call.record, rfl, hnew a ha⟩⟩
  | interrupted call k =>
    obtain ⟨new, ⟨⟨hgc, hwhole, hlineage⟩, -⟩, hnew, -⟩ := anchorFirst_inv hpy (he _ rfl) h k
    exact ⟨new, ⟨⟨hgc.file, .inl rfl, hgc.genuine, hgc.chain⟩, hwhole, hlineage⟩, fun a ha => ⟨call.record, rfl, hnew a ha⟩⟩
  | restart => exact ⟨[], by rw [List.append_nil]; exact ⟨⟨h.gc.file, .inl rfl, h.gc.genuine, h.gc.chain⟩, h.whole, h.lineage⟩,
      List.forall_mem_nil _⟩
  | compact call =>
    have hread : Readable py s.file := by
      rw [h.whole]
      exact readable_ended py hpy as
    exact ⟨[], by rw [List.append_nil]; exact ⟨h.gc.step_compact hpy hread, h.whole, h.lineage⟩, List.forall_mem_nil _⟩
  | verify => exact ⟨[], by rw [List.append_nil]; exact ⟨h.gc.step_verify hpy, h.whole, h.lineage⟩, List.forall_mem_nil _⟩

lemma anchor_run (hpy : 3 ≤ py.loadsNesting) (h : AnchorInv recs s as) (events : List AnchorEvent)
    (he : ∀ e ∈ events, ∀ rec ∈ e.record?, recs rec) : ∃ new, AnchorInv recs (events.foldl (AnchorEvent.step py) s) (as ++ new) := by
  induction events generalizing s as with
  | nil => exact ⟨[], by rwa [List.append_nil]⟩
  | cons e events ih =>
    obtain ⟨hnow, hlater⟩ := List.forall_mem_cons.mp he
    obtain ⟨new, hinv, -⟩ := anchor_step hpy h hnow
    obtain ⟨rest, hrest⟩ := ih hinv hlater
    exact ⟨new ++ rest, by rwa [← List.append_assoc]⟩

/-- A record that stands goes on standing, where no other text of it is anchored. -/
lemma stands_step (hpy : 3 ≤ py.loadsNesting) (h : AnchorInv recs s as) {e : AnchorEvent} (he : ∀ rec ∈ e.record?, recs rec)
    (hsame : ∀ rec' ∈ e.record?, rec'.id = rec.id → SameText rec' rec) (hs : ∀ r, Stands rec as r) :
    ∃ as', AnchorInv recs (e.step py s) as' ∧ ∀ r, Stands rec as' r := by
  obtain ⟨new, hinv, hnew⟩ := anchor_step hpy h he
  by_cases hid : ∃ rec' ∈ e.record?, rec'.id = rec.id
  · obtain ⟨rec', hrec', hid⟩ := hid
    obtain ⟨hsid, hcontent, hevidence⟩ := hsame rec' hrec' hid
    have hback : SameText rec rec' := ⟨hsid.symm, hcontent.symm, hevidence.symm⟩
    refine ⟨as, ?_, hs⟩
    cases e with
    | anchor call =>
      obtain rfl := Option.some.inj hrec'
      obtain ⟨hstore, -⟩ := anchorFirst_stands hpy h (fun r => (hs r).congr hback) 3
      exact ⟨⟨by rw [AnchorEvent.step, anchorMemory, hstore]; exact h.gc.file, .inr (by rw [AnchorEvent.step, anchorMemory, hstore]),
        h.gc.genuine, by rw [AnchorEvent.step, anchorMemory, hstore]; exact h.gc.chain⟩,
        by rw [AnchorEvent.step, anchorMemory, hstore]; exact h.whole, h.lineage⟩
    | interrupted call k =>
      obtain rfl := Option.some.inj hrec'
      obtain ⟨hstore, -⟩ := anchorFirst_stands hpy h (fun r => (hs r).congr hback) k
      exact ⟨⟨by rw [AnchorEvent.step, hstore]; exact h.gc.file, .inl rfl, h.gc.genuine,
        by rw [AnchorEvent.step, hstore]; exact h.gc.chain⟩, by rw [AnchorEvent.step, hstore]; exact h.whole, h.lineage⟩
    | restart => nomatch hrec'
    | compact call => nomatch hrec'
    | verify => nomatch hrec'
  · refine ⟨as ++ new, hinv, fun r => (hs r).append fun a ha => .inl fun heq => hid ?_⟩
    obtain ⟨rec', hrec', hledger⟩ := hnew a ha
    exact ⟨rec', hrec', hledger.symm.trans heq⟩

lemma stands_run (hpy : 3 ≤ py.loadsNesting) (h : AnchorInv recs s as) (events : List AnchorEvent)
    (he : ∀ e ∈ events, ∀ rec ∈ e.record?, recs rec) (hsame : ∀ e ∈ events, ∀ rec' ∈ e.record?, rec'.id = rec.id → SameText rec' rec)
    (hs : ∀ r, Stands rec as r) : ∃ as', AnchorInv recs (events.foldl (AnchorEvent.step py) s) as' ∧ ∀ r, Stands rec as' r := by
  induction events generalizing s as with
  | nil => exact ⟨as, h, hs⟩
  | cons e events ih =>
    obtain ⟨hnow, hlater⟩ := List.forall_mem_cons.mp he
    obtain ⟨hsnow, hslater⟩ := List.forall_mem_cons.mp hsame
    obtain ⟨as', hinv, hs'⟩ := stands_step hpy h hnow hsnow hs
    exact ih hinv hlater hslater hs'

/-- The records that a run anchors. -/
def Anchored (events : List AnchorEvent) (rec : MemoryRecord String) : Prop := ∃ e ∈ events, e.record? = some rec

lemma anchorInv_run (hpy : 3 ≤ py.loadsNesting) (events : List AnchorEvent) :
    ∃ as, AnchorInv (Anchored events) (AnchorEvent.run py events) as := by
  have hstart : AnchorInv (Anchored events) .empty [] := ⟨⟨.ended [], .inl rfl, List.forall_mem_nil _, [], rfl, .nil⟩, rfl, recorded_nil⟩
  obtain ⟨as, has⟩ := anchor_run hpy hstart events fun e he rec hrec => ⟨e, he, hrec⟩
  exact ⟨as, has⟩

/-- The artifacts of a run determine its state. -/
lemma AnchorInv.unique (hpy : 3 ≤ py.loadsNesting) {as' : List Artifact} (h : AnchorInv recs s as) (h' : AnchorInv recs s as') :
    as = as' := by
  have hload := h.gc.ensureLoaded hpy
  rw [h'.gc.ensureLoaded hpy] at hload
  exact h.lineage.all.symm.trans ((congrArg AmulField.all hload.symm).trans h'.lineage.all)

lemma stands_of_anchors (hpy : 3 ≤ py.loadsNesting) {events : List AnchorEvent} (h : Anchors rec events)
    (hinv : AnchorInv (Anchored events) (AnchorEvent.run py events) as) : ∀ r, Stands rec as r := by
  obtain ⟨before, call, after, hevents, hsame, hafter⟩ := h
  have hmem : ∀ e ∈ events, ∀ rec ∈ e.record?, Anchored events rec := fun e he rec hrec => ⟨e, he, hrec⟩
  have hstart : AnchorInv (Anchored events) .empty [] := ⟨⟨.ended [], .inl rfl, List.forall_mem_nil _, [], rfl, .nil⟩, rfl, recorded_nil⟩
  obtain ⟨bs, hbs⟩ := anchor_run hpy hstart before fun e he => hmem e (hevents ▸ List.mem_append_left _ he)
  have hcall : Anchored events call.record := ⟨.anchor call, hevents ▸ List.mem_append_right _ List.mem_cons_self, rfl⟩
  obtain ⟨new, hmid, -, hstands⟩ := anchorFirst_inv hpy hcall hbs 3
  have hinv' : AnchorInv (Anchored events) ((before ++ [AnchorEvent.anchor call]).foldl (AnchorEvent.step py) .empty) ([] ++ bs ++ new) := by
    rw [List.foldl_append]
    exact hmid.inv
  obtain ⟨as', hinv'', hs⟩ := stands_run hpy hinv' after
    (fun e he => hmem e (hevents ▸ List.mem_append_right _ (List.mem_cons_of_mem _ he))) hafter fun r => (hstands rfl r).congr hsame
  rw [← List.foldl_append, List.append_assoc, List.singleton_append, ← hevents] at hinv''
  rwa [hinv.unique hpy hinv'']

end

/-! ### verify_field -/

structure VerifyReport where
  schemaVersion : String
  artifactCount : ℕ
  integrityOk : Bool
  integrityFailures : List String
  driftedLedgerIds : List String
  unanchoredLedgerIds : List String
  gcMode : String
  checkpointsChecked : ℕ
  tailLinesRehashed : ℕ
deriving DecidableEq

/-- The records whose newest detail has another hash than their content. -/
def drifted (as : List Artifact) (live : Dict String (MemoryRecord String)) : List String :=
  (Dict.ofPairs ((as.filter (·.resolution = .detail)).map fun a => (a.ledgerId, a))).filterMap fun p =>
    match Dict.get live p.1 with
    | some rec => if sha256Text rec.content ≠ p.2.payloadSha256 then some p.1 else none
    | none => none

/-- `verify_field`: the field behind it, and the report. -/
def verifyField (py : Python) (file chain : Bytes) (f : AmulField) (records : List (MemoryRecord String)) :
    Option (AmulField × VerifyReport) :=
  (verifyGc py file chain f).map fun (g, gcr) =>
    let live := Dict.ofPairs (records.map fun r => (r.id, r))
    (g, { schemaVersion := schema
          artifactCount := (f.ensureLoaded py file).count
          integrityOk := gcr.integrityOk
          integrityFailures := if gcr.integrityOk then [] else gcr.integrityFailures
          driftedLedgerIds := drifted g.all live
          unanchoredLedgerIds := sorted ((live.map Prod.fst).filter (· ∉ g.all.map (·.ledgerId)))
          gcMode := gcr.mode
          checkpointsChecked := gcr.checkpointsChecked
          tailLinesRehashed := gcr.tailLinesRehashed })

section

variable {py : Python} {as : List Artifact} {records : List (MemoryRecord String)}

lemma live_get (hids : (records.map (·.id)).Nodup) {rec : MemoryRecord String} (hrec : rec ∈ records) :
    Dict.get (Dict.ofPairs (records.map fun r => (r.id, r))) rec.id = some rec := by
  refine Dict.get_ofPairs_of_nodup ?_ (List.mem_map_of_mem hrec)
  rwa [List.map_map]

lemma live_mem {id : String} {rec : MemoryRecord String}
    (h : Dict.get (Dict.ofPairs (records.map fun r => (r.id, r))) id = some rec) : rec ∈ records ∧ rec.id = id := by
  obtain ⟨r, hr, heq⟩ := List.mem_map.mp (Dict.mem_ofPairs (Dict.get_mem h))
  obtain ⟨rfl, rfl⟩ := Prod.mk.inj heq
  exact ⟨hr, rfl⟩

lemma details_get (as : List Artifact) (id : String) :
    Dict.get (Dict.ofPairs ((as.filter (·.resolution = .detail)).map fun a => (a.ledgerId, a))) id = latestOf as id .detail := by
  rw [Dict.get_ofPairs, List.filter_map, List.getLast?_map, Option.map_map, List.filter_filter, latestOf, latest]
  exact Option.map_id_fun' ▸ rfl

lemma keyed_ofPairs {K V : Type} [DecidableEq K] (pairs : List (K × V)) : Dict.Keyed (Dict.ofPairs pairs) := by
  rw [Dict.ofPairs]
  induction pairs using List.reverseRecOn with
  | nil => exact List.nodup_nil
  | append_singleton pairs p ih =>
    rw [List.foldl_append]
    exact Dict.keyed_set ih p.1 p.2

variable (as) in
/-- A record has drifted where it has a detail, and the newest has another hash than its content. -/
lemma mem_drifted (hids : (records.map (·.id)).Nodup) (id : String) :
    id ∈ drifted as (Dict.ofPairs (records.map fun r => (r.id, r))) ↔
      ∃ rec ∈ records, rec.id = id ∧ ∃ d, latestOf as id .detail = some d ∧ d.payloadSha256 ≠ sha256Text rec.content := by
  rw [drifted, List.mem_filterMap]
  constructor
  · rintro ⟨⟨k, d⟩, hmem, h⟩
    have hd := (Dict.mem_iff_get (keyed_ofPairs _)).mp hmem
    rw [details_get] at hd
    dsimp only at h
    split at h
    · rename_i rec hlive
      obtain ⟨hrec, hid⟩ := live_mem hlive
      split_ifs at h with hsha
      obtain rfl := Option.some.inj h
      exact ⟨rec, hrec, hid, d, hd, Ne.symm hsha⟩
    · nomatch h
  · rintro ⟨rec, hrec, rfl, d, hd, hsha⟩
    refine ⟨(rec.id, d), (Dict.mem_iff_get (keyed_ofPairs _)).mpr ((details_get as rec.id).trans hd), ?_⟩
    simp only [live_get hids hrec, if_pos (Ne.symm hsha)]

variable (as records) in
lemma mem_unanchored (id : String) : id ∈ sorted (((Dict.ofPairs (records.map fun r => (r.id, r))).map Prod.fst).filter
    (· ∉ as.map (·.ledgerId))) ↔ (∃ rec ∈ records, rec.id = id) ∧ ∀ a ∈ as, a.ledgerId ≠ id := by
  rw [mem_sorted, List.mem_filter]
  refine and_congr ?_ (by simp)
  rw [← Dict.has_iff, Dict.has, Dict.get_ofPairs, Option.isSome_map, List.getLast?_isSome, ne_eq, List.filter_eq_nil_iff]
  simp

lemma verifyGc_field {file chain : Bytes} {f g : AmulField} {report : GCVerifyReport} (h : verifyGc py file chain f = some (g, report)) :
    g = f.ensureLoaded py file := by
  obtain ⟨cps, -, heq⟩ := Option.map_eq_some_iff.mp h
  split_ifs at heq <;> exact (Prod.mk.inj heq).1.symm

end

/-! ### What a run keeps -/

/-- Every artifact of a run has an id of its own and was made of a record that was anchored, behind the version before it and
derived from a detail with the content of that record. -/
theorem anchored_lineage (py : Python) (hpy : 3 ≤ py.loadsNesting) (events : List AnchorEvent) :
    let as := opened py (AnchorEvent.run py events).file
    ((AnchorEvent.run py events).field.ensureLoaded py (AnchorEvent.run py events).file).all = as ∧
      (as.map (·.artifactId)).Nodup ∧
      ∀ n a, as[n]? = some a → ∃ rec, Anchored events rec ∧ Renders rec (as.take n) a := by
  obtain ⟨as, h⟩ := anchorInv_run hpy events
  have hopened : opened py (AnchorEvent.run py events).file = as := by
    rw [opened, h.gc.file.loads hpy, h.lineage.all]
  intro bs
  rw [show bs = as from hopened, h.gc.ensureLoaded hpy]
  exact ⟨h.lineage.all, h.lineage.nodup, h.lineage⟩

def decision (content : String) : MemoryRecord String where
  id := "m1"
  content := content
  createdAt := "2026-01-01T00:00:00+00:00"
  updatedAt := "2026-01-01T00:00:00+00:00"
  sourceAgent := "claude"
  sessionId := "s1"
  type := .decision
  confidence := ⟨1, 0⟩
  evidence := []
  supersedes := none
  status := .draft
  subject := none
  tags := []
  version := 1
  contentSha256 := ""

def anchoring (content : String) : AnchorCall := ⟨decision content, "amul", fun _ => ("2026-01-02T00:00:00+00:00", "2026-01-02T00:00:00+00:00")⟩

theorem anchored_lineage_twice : let events := [AnchorEvent.anchor (anchoring "old"), .restart, .anchor (anchoring "new")]
    ((opened cpython (AnchorEvent.run cpython events).file).map (·.artifactId)).Nodup ∧
      ∀ n a, (opened cpython (AnchorEvent.run cpython events).file)[n]? = some a →
        ∃ rec, Anchored events rec ∧ Renders rec ((opened cpython (AnchorEvent.run cpython events).file).take n) a :=
  (anchored_lineage cpython (by decide) [.anchor (anchoring "old"), .restart, .anchor (anchoring "new")]).2

/-- A record that was anchored, and with no other text after that, is left as it is. -/
theorem unchanged_not_anchored (py : Python) (hpy : 3 ≤ py.loadsNesting) (events : List AnchorEvent) (call : AnchorCall)
    (h : Anchors call.record events) :
    (anchorMemory py call (AnchorEvent.run py events).toStore).report = ⟨call.record.id, [], resolutions⟩ ∧
      (anchorMemory py call (AnchorEvent.run py events).toStore).store.file = (AnchorEvent.run py events).file := by
  obtain ⟨as, hinv⟩ := anchorInv_run hpy events
  obtain ⟨hstore, hreport⟩ := anchorFirst_stands hpy hinv (stands_of_anchors hpy h hinv) 3
  exact ⟨hreport, by rw [anchorMemory, hstore]⟩

lemma anchors_decision : Anchors (decision "new") [.anchor (anchoring "old"), .anchor (anchoring "new"), .restart] :=
  ⟨[.anchor (anchoring "old")], anchoring "new", [.restart], rfl, ⟨rfl, rfl, rfl⟩, by simp [AnchorEvent.record?]⟩

theorem unchanged_not_anchored_restart :
    (anchorMemory cpython (anchoring "new") (AnchorEvent.run cpython
      [.anchor (anchoring "old"), .anchor (anchoring "new"), .restart]).toStore).report = ⟨"m1", [], [.detail, .summary, .evidence]⟩ :=
  (unchanged_not_anchored cpython (by decide) [.anchor (anchoring "old"), .anchor (anchoring "new"), .restart] (anchoring "new")
    anchors_decision).1

/-- The verification finds the field sound, and names the records with a newest detail of another content and those with no
artifact; neither where all of them were anchored as they are. -/
theorem verifyField_run (py : Python) (hpy : 3 ≤ py.loadsNesting) (events : List AnchorEvent) (records : List (MemoryRecord String))
    (hids : (records.map (·.id)).Nodup) :
    let s := AnchorEvent.run py events
    let as := opened py s.file
    ∃ f report, verifyField py s.file s.chain s.field records = some (f, report) ∧ report.integrityOk = true ∧
      report.artifactCount = as.length ∧
      (∀ id, id ∈ report.driftedLedgerIds ↔
        ∃ rec ∈ records, rec.id = id ∧ ∃ d, latestOf as id .detail = some d ∧ d.payloadSha256 ≠ sha256Text rec.content) ∧
      (∀ id, id ∈ report.unanchoredLedgerIds ↔ (∃ rec ∈ records, rec.id = id) ∧ ∀ a ∈ as, a.ledgerId ≠ id) ∧
      ((∀ rec ∈ records, Anchors rec events) → report.driftedLedgerIds = [] ∧ report.unanchoredLedgerIds = []) := by
  obtain ⟨as, h⟩ := anchorInv_run hpy events
  intro s bs
  have hopened : bs = as := by
    change opened py (AnchorEvent.run py events).file = as
    rw [opened, h.gc.file.loads hpy, h.lineage.all]
  obtain ⟨f, gcr, hgc, hok, -⟩ := h.gc.verified py hpy
  have hall : f.all = as := by
    rw [verifyGc_field hgc, h.gc.ensureLoaded hpy, h.lineage.all]
  have hcount : ((AnchorEvent.run py events).field.ensureLoaded py (AnchorEvent.run py events).file).count = as.length := by
    rw [h.gc.ensureLoaded hpy, AmulField.count, AmulField.holding_order, List.length_map]
  have hdrifted (id : String) := mem_drifted as hids id
  have hunanchored (id : String) := mem_unanchored as records id
  have hstands (rec : MemoryRecord String) (hrec : Anchors rec events) := stands_of_anchors hpy hrec h
  refine ⟨f, _, by rw [verifyField, hgc]; rfl, hok, hcount.trans (congrArg List.length hopened.symm), ?_, ?_, fun hanchors => ⟨?_, ?_⟩⟩
  · rw [hopened, hall]
    exact hdrifted
  · rw [hopened, hall]
    exact hunanchored
  · refine List.eq_nil_iff_forall_not_mem.mpr fun id hid => ?_
    rw [hall] at hid
    obtain ⟨rec, hrec, rfl, d, hd, hsha⟩ := (hdrifted id).mp hid
    obtain ⟨p, hp, hstand⟩ := hstands rec (hanchors rec hrec) .detail
    obtain rfl := Option.some.inj (hd.symm.trans hp)
    exact hsha hstand
  · refine List.eq_nil_iff_forall_not_mem.mpr fun id hid => ?_
    rw [hall] at hid
    obtain ⟨⟨rec, hrec, rfl⟩, hnone⟩ := (hunanchored id).mp hid
    obtain ⟨p, hp, -⟩ := hstands rec (hanchors rec hrec) .detail
    obtain ⟨hmem, hkind⟩ := latest_mem hp
    exact hnone p hmem (by simpa using (Bool.and_eq_true_iff.mp hkind).1)

theorem verifyField_run_decision : ∃ f report, verifyField cpython
    (AnchorEvent.run cpython [.anchor (anchoring "old"), .anchor (anchoring "new"), .restart]).file
    (AnchorEvent.run cpython [.anchor (anchoring "old"), .anchor (anchoring "new"), .restart]).chain
    (AnchorEvent.run cpython [.anchor (anchoring "old"), .anchor (anchoring "new"), .restart]).field [decision "new"] =
      some (f, report) ∧ report.integrityOk = true ∧ report.driftedLedgerIds = [] ∧ report.unanchoredLedgerIds = [] := by
  obtain ⟨f, report, hverify, hok, -, -, -, hclean⟩ := verifyField_run cpython (by decide)
    [.anchor (anchoring "old"), .anchor (anchoring "new"), .restart] [decision "new"] (by simp)
  obtain ⟨hdrifted, hunanchored⟩ := hclean fun rec hrec => List.mem_singleton.mp hrec ▸ anchors_decision
  exact ⟨f, report, hverify, hok, hdrifted, hunanchored⟩

end ContinuityLedger.Amul
