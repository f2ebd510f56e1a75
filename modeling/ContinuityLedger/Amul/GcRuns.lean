import Mathlib.Data.List.Dedup
import ContinuityLedger.Amul.Compacted

namespace ContinuityLedger.Amul

open Foundations Foundations.Sha256

structure GcStore extends Store where
  chain : Bytes

inductive GcEvent
  | field (e : Event)
  | compact (call : CompactCall)
  | verify

def CompactOutcome.written : CompactOutcome → Bytes
  | returned _ (some cp) => cp.line
  | _ => []

def GcEvent.step (py : Python) (s : GcStore) : GcEvent → GcStore
  | field e => { s with toStore := e.step py s.toStore }
  | compact call =>
    let r := Amul.compact py s.file s.chain s.field call
    ⟨⟨s.file, r.1⟩, s.chain ++ r.2.written⟩
  | verify => { s with field := (verifyGc py s.file s.chain s.field).elim s.field (·.1) }

def GcStore.run (py : Python) (s : GcStore) (events : List GcEvent) : GcStore := events.foldl (GcEvent.step py) s

def GcStore.empty : GcStore := ⟨.empty, []⟩

/-! ### One compaction -/

section Compact

variable {py : Python} {file chain : Bytes} {f : AmulField} {call : CompactCall}

lemma compact_sealed {report : CompactReport} {cp : Checkpoint} (h : (compact py file chain f call).2 = .returned report (some cp)) :
    ∃ existing plan, Checkpoint.load py chain = some existing ∧ covered existing < (rawLines file).length ∧
      (∀ c ∈ existing, ∀ id ∈ c.coldLedgerIds, id ∉ plan) ∧
      (checkpointOf (rawLines file) existing plan (f.ensureLoaded py file).all call).sealed = some cp := by
  unfold compact at h
  cases hload : Checkpoint.load py chain with
  | none => simp [hload] at h
  | some existing =>
    simp only [hload] at h
    split_ifs at h with hle
    · simp at h
    cases hplan : classifyRetention call with
    | none => simp [hplan] at h
    | some plan =>
      simp only [hplan] at h
      split_ifs at h with hdead
      refine ⟨existing, plan.1, rfl, not_le.mp hle, ?_, ?_⟩
      · intro c hc id hid hhot
        exact hdead (List.any_eq_true.mpr ⟨id, List.mem_flatMap.mpr ⟨c, hc, hid⟩, by simpa using hhot⟩)
      · cases hsealed : (checkpointOf (rawLines file) existing plan.1 (f.ensureLoaded py file).all call).sealed with
        | none => simp [hsealed] at h
        | some cp' =>
          simp only [hsealed, CompactOutcome.returned.injEq, Option.some.injEq] at h
          rw [h.2]

lemma compact_field : (compact py file chain f call).1 = f ∨ (compact py file chain f call).1 = f.ensureLoaded py file := by
  unfold compact
  cases Checkpoint.load py chain with
  | none => exact .inl rfl
  | some existing =>
    simp only
    split_ifs
    · exact .inl rfl
    cases classifyRetention call with
    | none => exact .inl rfl
    | some plan =>
      simp only
      split_ifs
      · exact .inl rfl
      · cases (checkpointOf (rawLines file) existing plan.1 (f.ensureLoaded py file).all call).sealed <;> exact .inr rfl

lemma verify_field : (verifyGc py file chain f).elim f (·.1) = f ∨
    (verifyGc py file chain f).elim f (·.1) = f.ensureLoaded py file := by
  unfold verifyGc
  cases Checkpoint.load py chain with
  | none => exact .inl rfl
  | some cps =>
    refine .inr ?_
    simp only [Option.map_some, Option.elim_some]
    split_ifs <;> rfl

end Compact

/-- Every artifact is in one of the two buckets. -/
lemma count_buckets (hot : List String) (as : List Artifact) :
    as.countP (·.ledgerId ∈ ((as.map (·.ledgerId)).filter (· ∉ hot)).dedup) +
      as.countP (·.ledgerId ∈ ((as.map (·.ledgerId)).filter (· ∈ hot)).dedup) = as.length := by
  have hcold : as.countP (·.ledgerId ∈ ((as.map (·.ledgerId)).filter (· ∉ hot)).dedup) =
      as.countP fun a => !decide (a.ledgerId ∈ hot) := by
    refine List.countP_congr fun a ha => ?_
    have hmem : a.ledgerId ∈ as.map (·.ledgerId) := List.mem_map_of_mem ha
    simp only [decide_eq_true_eq, List.mem_dedup, List.mem_filter, hmem, true_and, Bool.not_eq_true', decide_eq_false_iff_not]
  have hhot : as.countP (·.ledgerId ∈ ((as.map (·.ledgerId)).filter (· ∈ hot)).dedup) =
      as.countP fun a => decide (a.ledgerId ∈ hot) := by
    refine List.countP_congr fun a ha => ?_
    have hmem : a.ledgerId ∈ as.map (·.ledgerId) := List.mem_map_of_mem ha
    simp only [decide_eq_true_eq, List.mem_dedup, List.mem_filter, hmem, true_and]
  rw [hcold, hhot, Nat.add_comm, List.length_eq_countP_add_countP (fun a : Artifact => decide (a.ledgerId ∈ hot))]
  simp

lemma checkpointOf_counts {lines : List Bytes} {existing : List Checkpoint} {hot : List String} {as : List Artifact}
    (call : CompactCall) (hlen : as.length = lines.length) (hle : covered existing ≤ lines.length) :
    let cp := checkpointOf lines existing hot as call
    cp.rangeStart + (cp.coldCount + cp.hotCount) = cp.rangeEnd := by
  have h := count_buckets hot ((as.take lines.length).drop (covered existing))
  simp only [List.length_drop, List.length_take] at h
  simp only [checkpointOf]
  omega

lemma mem_sorted {ids : List String} {id : String} : id ∈ sorted ids ↔ id ∈ ids := List.mem_insertionSort _

/-- What is sealed continues the chain. -/
lemma Chain.sealed {lines : List Bytes} {existing : List Checkpoint} (h : Chain lines existing) {hot : List String}
    {as : List Artifact} {call : CompactCall} {cp : Checkpoint} (hlen : as.length = lines.length)
    (hlt : covered existing < lines.length) (hdead : ∀ c ∈ existing, ∀ id ∈ c.coldLedgerIds, id ∉ hot)
    (hcp : (checkpointOf lines existing hot as call).sealed = some cp) : Chain lines (existing ++ [cp]) := by
  unfold Checkpoint.sealed at hcp
  split_ifs at hcp with hprint
  obtain rfl := Option.some.inj hcp
  refine .snoc h rfl hlt le_rfl (checkpointOf_counts call hlen hlt.le) rfl rfl rfl ?_ hprint
  intro c hc id hid hin
  have hhot : id ∈ hot := by
    have hmem := mem_sorted.mp hin
    rw [List.mem_dedup] at hmem
    simpa using (List.mem_filter.mp hmem).2
  exact hdead c hc id hid hhot

/-! ### Runs -/

/-- The payload hashes to what the artifact says. -/
def Genuine (a : Artifact) : Prop := sha256Text a.payload = a.payloadSha256

/-- The artifact that an event appends, or begins to append. -/
def GcEvent.artifact : GcEvent → Option Artifact
  | field (.append a) | field (.crash a _) => some a
  | _ => none

/-- No line begins behind one that is not ended, and no line is sealed that is no artifact. -/
def GcEvent.Sound (py : Python) (s : GcStore) : GcEvent → Prop
  | field e => e.written ≠ [] → Ended s.file
  | compact _ => Readable py s.file
  | verify => True

def SoundFrom (py : Python) : GcStore → List GcEvent → Prop
  | _, [] => True
  | s, e :: es => e.Sound py s ∧ SoundFrom py (e.step py s) es

/-- The file holds the artifacts, the memory nothing or the same, and the chain stands for lines of the file. -/
structure GcInv (s : GcStore) (as : List Artifact) : Prop where
  file : Holds s.file as
  field : s.field = .fresh ∨ s.field = .holding as
  genuine : ∀ a ∈ as, Genuine a
  chain : ∃ cps, s.chain = cps.flatMap Checkpoint.line ∧ Chain (rawLines s.file) cps

namespace GcInv

variable {py : Python} {s : GcStore} {as : List Artifact}

lemma ensureLoaded (hpy : 3 ≤ py.loadsNesting) (h : GcInv s as) : s.field.ensureLoaded py s.file = .holding as := by
  rcases h.field with hf | hf
  · rw [hf, h.file.loads hpy]
  · rw [hf, AmulField.ensureLoaded, if_pos (AmulField.holding_loaded as)]

lemma load (hpy : 3 ≤ py.loadsNesting) (h : GcInv s as) :
    ∃ cps, s.chain = cps.flatMap Checkpoint.line ∧ Checkpoint.load py s.chain = some cps ∧ Chain (rawLines s.file) cps := by
  obtain ⟨cps, hbytes, hchain⟩ := h.chain
  exact ⟨cps, hbytes, hbytes ▸ Checkpoint.load_lines py hpy hchain.printable, hchain⟩

lemma loaded (hpy : 3 ≤ py.loadsNesting) (h : GcInv s as) {f : AmulField}
    (hf : f = s.field ∨ f = s.field.ensureLoaded py s.file) : f = .fresh ∨ f = .holding as := by
  rcases hf with rfl | rfl
  · exact h.field
  · exact .inr (h.ensureLoaded hpy)

lemma step_field (hpy : 3 ≤ py.loadsNesting) (h : GcInv s as) {e : Event} (he : e.written ≠ [] → Ended s.file)
    (hgenuine : ∀ a ∈ (GcEvent.field e).artifact, Genuine a) :
    GcInv ((GcEvent.field e).step py s) (as ++ e.reached.toList) := by
  obtain ⟨cps, hbytes, hchain⟩ := h.chain
  obtain ⟨more, hmore⟩ := h.file.lines_step py he
  refine ⟨h.file.step py he, ?_, ?_, cps, hbytes, ?_⟩
  · cases e with
    | append a =>
      refine .inr ?_
      change (s.field.ensureLoaded py s.file).add a = AmulField.holding (as ++ [a])
      rw [h.ensureLoaded hpy, AmulField.holding_append]
    | crash a k => exact .inl rfl
    | restart => exact .inl rfl
    | read =>
      refine .inr ?_
      change s.field.ensureLoaded py s.file = AmulField.holding (as ++ [])
      rw [h.ensureLoaded hpy, List.append_nil]
  · intro a ha
    rcases List.mem_append.mp ha with ha | ha
    · exact h.genuine a ha
    · refine hgenuine a ?_
      cases e with
      | append b => simpa [Event.reached, GcEvent.artifact, eq_comm] using ha
      | crash b k =>
        simp only [Event.reached] at ha
        split_ifs at ha
        · simpa [GcEvent.artifact, eq_comm] using ha
        · simp at ha
      | restart => simp [Event.reached] at ha
      | read => simp [Event.reached] at ha
  · change Chain (rawLines (e.step py s.toStore).file) cps
    rw [hmore]
    exact hchain.append more

lemma step_compact (hpy : 3 ≤ py.loadsNesting) (h : GcInv s as) {call : CompactCall} (hread : Readable py s.file) :
    GcInv ((GcEvent.compact call).step py s) as := by
  obtain ⟨cps, hbytes, hload, hchain⟩ := h.load hpy
  refine ⟨h.file, h.loaded hpy compact_field, h.genuine, ?_⟩
  change ∃ cps : List Checkpoint, s.chain ++ (compact py s.file s.chain s.field call).2.written =
    cps.flatMap Checkpoint.line ∧ Chain (rawLines s.file) cps
  cases ho : (compact py s.file s.chain s.field call).2 with
  | raised => exact ⟨cps, by simp [CompactOutcome.written, hbytes], hchain⟩
  | returned report appended =>
    cases appended with
    | none => exact ⟨cps, by simp [CompactOutcome.written, hbytes], hchain⟩
    | some cp =>
      obtain ⟨existing, plan, hexisting, hlt, hdead, hsealed⟩ := compact_sealed ho
      obtain rfl : cps = existing := Option.some.inj (hload.symm.trans hexisting)
      have hlen : (s.field.ensureLoaded py s.file).all.length = (rawLines s.file).length := by
        rw [h.ensureLoaded hpy, AmulField.length_all, h.file.length_lines hpy hread]
      refine ⟨cps ++ [cp], ?_, hchain.sealed hlen hlt hdead hsealed⟩
      rw [CompactOutcome.written, hbytes, List.flatMap_append, List.flatMap_singleton]

lemma step_verify (hpy : 3 ≤ py.loadsNesting) (h : GcInv s as) : GcInv (GcEvent.verify.step py s) as :=
  ⟨h.file, h.loaded hpy verify_field, h.genuine, h.chain⟩

lemma run (hpy : 3 ≤ py.loadsNesting) (h : GcInv s as) {events : List GcEvent}
    (hgenuine : ∀ e ∈ events, ∀ a ∈ e.artifact, Genuine a) (hsound : SoundFrom py s events) :
    ∃ bs, GcInv (s.run py events) bs := by
  induction events generalizing s as with
  | nil => exact ⟨as, h⟩
  | cons e es ih =>
    obtain ⟨hfirst, hrest⟩ := List.forall_mem_cons.mp hgenuine
    obtain ⟨hnow, hlater⟩ := hsound
    cases e with
    | field e => exact ih (h.step_field hpy hnow hfirst) hrest hlater
    | compact call => exact ih (h.step_compact hpy hnow) hrest hlater
    | verify => exact ih (h.step_verify hpy) hrest hlater

end GcInv

end ContinuityLedger.Amul
