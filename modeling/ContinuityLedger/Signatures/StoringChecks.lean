import ContinuityLedger.Signatures.LaterTrust

/-! What the checks of the two transactions establish where they pass, and what a later state of the tables keeps. -/

namespace ContinuityLedger.Signatures.Storing

open Foundations Foundations.Sha256 Foundations.PyText Foundations.HashChain Blocks Evidence

variable {verify : Verifier} {tenant : String} {roots : Dict String PublicKey} {rt : Runtime}

/-! ### The hashes of the service and of the database -/

@[simp] lemma normalizeSignature_idem (s : String) : normalizeSignature (normalizeSignature s) = normalizeSignature s := by
  have hfree : '\r' ∉ (normalizeSignature s).toList := fun h => by
    have hin := mem_strip h
    rw [String.toList_ofList] at hin
    exact newlines_free _ hin
  rw [normalizeSignature, newlines_of_free hfree, String.ofList_toList, normalizeSignature, strip_strip]

def Normal (signature : String) : Prop := normalizeSignature signature = signature

lemma judgedAttestation_eq {call : AttestationCall} {message : String} (hn : Normal call.signature)
    (h : attestationMessage call.kind tenant call.subject call.subjectHash call.signerSeq call.prevHash call.signedAt =
      .ok message) : judgedAttestation message call = call.row tenant := by
  obtain ⟨-, -, -, -, rfl⟩ := attestationMessage_eq h
  rw [judgedAttestation, AttestationCall.row, attestationHash, hn]
  rfl

lemma judgedStatement_eq {call : StatementCall} {message : String} (hn : Normal call.signature)
    (h : trustMessage call.kind tenant call.keyId call.arg call.subjectHash call.stmtSeq call.prevHash = .ok message) :
    judgedStatement message call = call.row tenant := by
  unfold trustMessage at h
  dsimp only at h
  split_ifs at h
  obtain rfl := Except.ok.inj h
  rw [judgedStatement, StatementCall.row, statementHash, hn]
  rfl

lemma hashed_row {call : AttestationCall} (hn : Normal call.signature) : Hashed tenant (call.row tenant) := by
  change (attestationHash _ call.keyId call.signature).text = _
  rw [attestationHash, hn]
  rfl

/-! ### Statements -/

/-- A trust log that the service wrote: gapless, linked, and with nothing wrong in it. -/
structure StatementLog (verify : Verifier) (tenant : String) (roots : Dict String PublicKey) (log : List Statement) :
    Prop where
  linked : Linked Statement.follows Statement.leaves (0, genesis.text) log
  clean : (loopAfter verify tenant roots log).st.problems = []

lemma statements_increasing {log : List Statement} {p : ℤ × String}
    (h : Linked Statement.follows Statement.leaves p log) : log.Pairwise (fun a b => a.stmtSeq < b.stmtSeq) :=
  gapless_increasing (fun _ => rfl) (fun _ => rfl) h

lemma statementsInOrder_eq {log : List Statement} {p : ℤ × String}
    (h : Linked Statement.follows Statement.leaves p log) : statementsInOrder log = log :=
  byStmtSeq_eq ((statements_increasing h).imp le_of_lt)

lemma evaluateTrust_eq {log : List Statement} {p : ℤ × String} (h : Linked Statement.follows Statement.leaves p log) :
    evaluateTrust verify tenant roots log = (loopAfter verify tenant roots log).st := by
  change (loopAfter verify tenant roots (byStmtSeq log)).st = _
  rw [byStmtSeq_eq ((statements_increasing h).imp le_of_lt)]

lemma statementHead_eq {log : List Statement} (h : Linked Statement.follows Statement.leaves (0, genesis.text) log) :
    statementHead log = tip Statement.leaves (0, genesis.text) log := by
  rw [statementHead, EventFold.argmax_eq_getLast? (statements_increasing h), tip_eq_getLast?]
  cases log.getLast? <;> rfl

lemma jarvisStoreTrustStatement_eq {session : Option String} {call : StatementCall} {log log' : List Statement}
    (h : jarvisStoreTrustStatement session tenant log call = .ok log') :
    (call.row tenant).follows = statementHead log ∧ log' = log ++ [call.row tenant] := by
  unfold jarvisStoreTrustStatement at h
  dsimp only at h
  split_ifs at h with hsession hseq hprev hchecks
  refine ⟨Prod.ext ?_ (not_not.mp hprev), (Except.ok.inj h).symm⟩
  simp only [Statement.follows, StatementCall.row]
  omega

lemma logHead_eq {α : Type} (leaves : α → ℤ × String) (log : List α) : logHead leaves log = tip leaves (0, genesis.text) log :=
  (tip_eq_getLast? ..).symm

/-- A part of a log that ends with the same number is the log. -/
lemma prefix_eq {α : Type} {seq : α → ℤ} {prev own : α → ℤ × String} (hp : ∀ e, (prev e).1 = seq e - 1)
    (ho : ∀ e, (own e).1 = seq e) {p : ℤ × String} {existing log : List α} (hl : Linked prev own p log)
    (hpre : existing <+: log) (h : (tip own p existing).1 = (tip own p log).1) : existing = log := by
  obtain ⟨more, rfl⟩ := hpre
  have hboth := gapless_tip hp ho hl
  rw [← h, gapless_tip hp ho ((linked_append ..).mp hl).1] at hboth
  apply List.IsPrefix.eq_of_length ⟨more, rfl⟩
  omega

/-! ### Checks that have passed -/

lemma checkAttestation_ok {trusted : List Statement} {existing : List Attestation} {truth : Truth}
    {call : AttestationCall} (hn : Normal call.signature)
    (h : checkAttestation verify tenant roots trusted existing truth call = .ok ()) :
    call.signerSeq = (logHead Attestation.leaves existing).1 + 1 ∧
      Verified verify tenant (evaluateTrust verify tenant roots trusted) truth existing (call.row tenant) := by
  unfold checkAttestation at h
  dsimp only at h
  split_ifs at h with horder
  refine ⟨(Prod.mk.inj (not_not.mp horder)).1, ?_⟩
  cases hm : attestationMessage call.kind tenant call.subject call.subjectHash call.signerSeq call.prevHash
    call.signedAt with
  | error e =>
    rw [hm] at h
    cases h
  | ok message =>
    simp only [hm, judgedAttestation_eq hn hm, judgeAttestation] at h
    cases hout : evaluateAttestations verify tenant (evaluateTrust verify tenant roots trusted)
      (existing ++ [call.row tenant]) truth with
    | error e =>
      rw [hout] at h
      cases h
    | ok out =>
      simp only [hout] at h
      split_ifs at h with hmine
      exact ⟨out, hout, hmine⟩

lemma statementMessage_ok {existing : List Statement} {call : StatementCall} {message : String}
    (h : statementMessage tenant existing call = .ok message) :
    call.stmtSeq = (logHead Statement.leaves existing).1 + 1 ∧
      trustMessage call.kind tenant call.keyId call.arg call.subjectHash call.stmtSeq call.prevHash = .ok message := by
  unfold statementMessage at h
  dsimp only at h
  split_ifs at h with horder
  refine ⟨(Prod.mk.inj (not_not.mp horder)).1, ?_⟩
  cases hm : trustMessage call.kind tenant call.keyId call.arg call.subjectHash call.stmtSeq call.prevHash with
  | error e =>
    rw [hm] at h
    cases h
  | ok text =>
    rw [hm] at h
    exact congrArg Except.ok (Except.ok.inj h)

lemma targetHash_some {log : List Attestation} {kind : Option String} {arg : Option ℤ} {hash : String}
    (h : targetHash log kind arg = some hash) : ∃ a ∈ log, arg = some a.signerSeq ∧ a.attestationHash = hash := by
  obtain ⟨a, ha, rfl⟩ := Option.map_eq_some_iff.mp h
  have hcond := List.find?_some ha
  simp only [Bool.and_eq_true, decide_eq_true_eq] at hcond
  exact ⟨a, List.mem_of_find?_eq_some ha, hcond.1, rfl⟩

/-- A void is of a row that is there. -/
lemma checkTarget_void {log : List Attestation} {call : StatementCall} (h : checkTarget log call = .ok ())
    (hkind : call.kind = "void") :
    ∃ a ∈ log, call.arg = some a.signerSeq ∧ call.subjectHash = some a.attestationHash := by
  unfold checkTarget at h
  rw [hkind] at h
  simp only [String.reduceEq, decide_false, Bool.false_and, Bool.false_eq_true, if_false, decide_true, Bool.true_and] at h
  split_ifs at h with hnames
  simp only [Bool.not_eq_true', Bool.not_eq_false, Bool.and_eq_true, decide_eq_true_eq, Option.isSome_iff_exists] at hnames
  obtain ⟨⟨hash, hhash⟩, hsame⟩ := hnames
  obtain ⟨a, ha, harg, rfl⟩ := targetHash_some hhash
  exact ⟨a, ha, harg, by rw [← hsame, hhash]⟩

structure StatementChecked (verify : Verifier) (tenant : String) (roots : Dict String PublicKey)
    (existing : List Statement) (log : List Attestation) (call : StatementCall) : Prop where
  seq : call.stmtSeq = (logHead Statement.leaves existing).1 + 1
  target : call.kind = "void" → ∃ a ∈ log, call.arg = some a.signerSeq ∧ call.subjectHash = some a.attestationHash
  silent : mine (statementSubject call.stmtSeq)
    (evaluateTrust verify tenant roots (existing ++ [call.row tenant])).problems = []

lemma checkStatement_ok {existing : List Statement} {log : List Attestation} {call : StatementCall}
    (hn : Normal call.signature) (h : checkStatement verify tenant roots existing log call = .ok ()) :
    StatementChecked verify tenant roots existing log call := by
  obtain ⟨message, hm, h⟩ := Checks.bind_ok h
  obtain ⟨_, htarget, h⟩ := Checks.bind_ok h
  obtain ⟨hseq, hm⟩ := statementMessage_ok hm
  refine ⟨hseq, fun hkind => checkTarget_void htarget hkind, ?_⟩
  rw [judgedStatement_eq hn hm, judgeStatement] at h
  split_ifs at h with hmine
  exact hmine

/-! ### What is committed grows -/

structure Committed.Grows (c c' : Committed) : Prop where
  statements : c.statements <+: c'.statements
  attestations : c.attestations <+: c'.attestations
  blocks : c.blocks <+: c'.blocks
  objects : c.objects <+: c'.objects

/-- The truth that a loading of intact objects gives. -/
def intactTruth (blocks : List Block) (objects : List EvidenceObject) : Truth :=
  truthOf blocks ((objects.filter (·.schemaId = cesReplayReceipt)).map fun o => (o.id, none))

lemma loadTruth_intact {objects : List EvidenceObject} (h : Intact rt objects) (blocks : List Block) :
    loadTruth rt blocks objects = .ok (intactTruth blocks objects) := by
  have hload : ∀ o ∈ objects.filter (·.schemaId = cesReplayReceipt), loadReceipt rt o = .ok (o.id, none) :=
    fun o ho => by
      rw [loadReceipt, h o (List.mem_of_mem_filter ho)]
      rfl
  rw [loadTruth, Checks.mapM_eq_map hload]
  rfl

lemma intact_receipt {objects : List EvidenceObject} {id : String} :
    ((intactTruth [] objects).receiptProblem id).filter (· ≠ "") = none ↔
      ∃ o ∈ objects, o.schemaId = cesReplayReceipt ∧ o.id = id := by
  have hnone : ∀ p ∈ ((objects.filter (·.schemaId = cesReplayReceipt)).map fun o => (o.id, (none : Option String))),
      p.2 = none := by
    intro p hp
    obtain ⟨o, -, rfl⟩ := List.mem_map.mp hp
    rfl
  change ((((Dict.ofPairs ((objects.filter (·.schemaId = cesReplayReceipt)).map
    fun o => (o.id, (none : Option String)))).get id).getD (some ("receipt " ++ id ++ " does not exist"))).filter
      (· ≠ "")) = none ↔ _
  rw [Dict.get_ofPairs]
  cases hl : (((objects.filter (·.schemaId = cesReplayReceipt)).map
    fun o => (o.id, (none : Option String))).filter (fun p => p.1 = id)).getLast? with
  | none =>
    rw [List.getLast?_eq_none_iff, List.filter_eq_nil_iff] at hl
    have hne : "receipt " ++ id ++ " does not exist" ≠ "" := fun h => by
      have hlen := congrArg String.length h
      simp at hlen
    refine iff_of_false (by simp [Option.filter, hne]) ?_
    rintro ⟨o, ho, hs, rfl⟩
    exact hl (o.id, none) (List.mem_map_of_mem (List.mem_filter.mpr ⟨ho, by simp [hs]⟩)) (by simp)
  | some p =>
    obtain ⟨hp, hid⟩ := List.mem_filter.mp (List.mem_of_getLast? hl)
    obtain ⟨o, ho, rfl⟩ := List.mem_map.mp hp
    obtain ⟨ho, hs⟩ := List.mem_filter.mp ho
    exact iff_of_true rfl ⟨o, ho, by simpa using hs, by simpa using hid⟩

lemma intactTruth_grows {blocks blocks' : List Block} {objects objects' : List EvidenceObject}
    (hb : blocks <+: blocks') (hn : (blocks'.map Block.height).Nodup) (ho : objects <+: objects') :
    (intactTruth blocks objects).Grows (intactTruth blocks' objects') := by
  refine ⟨fun h hash hh => ?_, fun id hid => ?_⟩
  · obtain ⟨b, hmem, hpair⟩ := List.mem_map.mp (Dict.mem_ofPairs (Dict.get_mem hh))
    refine Dict.get_ofPairs_of_nodup ?_ (List.mem_map.mpr ⟨b, hb.subset hmem, hpair⟩)
    simpa [Function.comp_def] using hn
  · obtain ⟨o, hmem, hs⟩ := intact_receipt.mp hid
    exact intact_receipt.mpr ⟨o, ho.subset hmem, hs⟩

end ContinuityLedger.Signatures.Storing
