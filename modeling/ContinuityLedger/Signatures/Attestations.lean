import ContinuityLedger.Signatures.Trust

/-! The attestation log: every row is judged on its own position, link, hash, key, signature and subject, and the
log carries on from the stored hash. -/

namespace ContinuityLedger.Signatures

open Foundations Foundations.Sha256 Foundations.PyText

structure Attestation where
  signerSeq : ℤ
  kind : String
  subject : String
  subjectHash : String
  prevHash : String
  keyId : String
  signedAt : String
  signature : String
  attestationHash : String
deriving DecidableEq

/-- What a subject is checked against; `receiptProblem` is `none` for an intact receipt. -/
structure Truth where
  blockHash : ℕ → Option String
  receiptProblem : String → Option String

structure AttestationSummary where
  count : ℕ
  headSeq : ℤ
  headHash : String
  blocks : List ℕ
  receipts : List String
  newestCheckpointSeq : ℤ
  cosignedCheckpointSeq : ℤ
  keysUsed : List String
  voided : List ℤ
  badSeqs : List ℤ
  blockSeq : Dict ℕ ℤ
  blockSubjectHash : Dict ℕ String
  receiptSeq : Dict String ℤ
  validCheckpoints : Dict ℤ ℕ
  cosignedCheckpoints : List ℤ

def AttestationSummary.empty : AttestationSummary :=
  ⟨0, 0, genesis.text, [], [], 0, 0, [], [], [], [], [], [], [], []⟩

def checkpointProblems (tenant : String) (a : Attestation) (bySeq : Dict ℤ Attestation) (truth : Truth)
    (cp : Checkpoint) : List String :=
  (if (cp.coveredSeq : ℤ) ≠ a.signerSeq - 1 then
    ["a checkpoint covers the log up to the attestation just before it"] else []) ++
  (if cp.coveredSeq = 0 then
    if cp.coveredHead ≠ genesis.text then ["the covered head of an empty log is all zeros"] else []
  else if (bySeq.get cp.coveredSeq).all (·.attestationHash ≠ cp.coveredHead) then
    ["the covered head is not the attestation log's actual head at that point"] else []) ++
  (if cp.tipHeight = 0 then
    if cp.tipHash ≠ genesis.text then ["with no block the tip hash is all zeros"] else []
  else if truth.blockHash cp.tipHeight ≠ some cp.tipHash then
    ["the tip block " ++ toString cp.tipHeight ++ " is not what the checkpoint says"] else []) ++
  (if (checkpointHash tenant cp.coveredSeq cp.coveredHead cp.tipHeight cp.tipHash).text ≠ a.subjectHash then
    ["the checkpoint's hash does not match its subject"] else [])

def checkSubject (tenant : String) (a : Attestation) (bySeq : Dict ℤ Attestation) (truth : Truth) :
    Except Raised (List String) :=
  if a.kind = "block" then do
    match ← parseBlockSubject a.subject with
    | none => pure ["a block attestation's subject looks like block:<height>"]
    | some h =>
      match truth.blockHash h with
      | none => pure ["block " ++ toString h ++ " does not exist"]
      | some real =>
        pure (if real = a.subjectHash then [] else
          ["it attests block " ++ toString h ++ " with hash " ++ first 16 a.subjectHash ++
            "..., but the block's hash is " ++ first 16 real ++ "..."])
  else if a.kind = "receipt" then
    if !startsWith a.subject "eo:sha256:" || a.subject ≠ "eo:sha256:" ++ a.subjectHash then
      .ok ["a receipt attestation's subject is the receipt's evidence id, and its hash is the same 64 hex characters"]
    else .ok (((truth.receiptProblem a.subject).filter (· ≠ "")).toList)
  else do
    match ← parseCheckpointSubject a.subject with
    | none => pure ["a checkpoint's subject looks like checkpoint:<seq>:<head>:<tip height>:<tip hash>"]
    | some cp => pure (checkpointProblems tenant a bySeq truth cp)

/-- What the loop carries from row to row. -/
structure AttestationLoop where
  problems : List Problem
  summary : AttestationSummary
  expected : ℤ
  last : String
  seen : Dict (String × String) Attestation
  bySeq : Dict ℤ Attestation

/-- A row's key and signature. -/
def signerProblems (verify : Verifier) (trust : TrustState) (a : Attestation) (message : String) : List String :=
  match trust.keys.get a.keyId with
  | none => ["signed by " ++ a.keyId ++ ", which no root authorized"]
  | some auth =>
    (if a.signerSeq < auth.fromSeq then
      ["key " ++ a.keyId ++ " was not authorized until attestation " ++ toString auth.fromSeq] else []) ++
    (match auth.cutoff with
      | none => []
      | some cutoff =>
        if cutoff < a.signerSeq then
          ["key " ++ a.keyId ++ " was revoked with a cutoff of " ++ toString cutoff ++
            "; this attestation is after it and untrusted"] else []) ++
    (match verify a.signature (utf8 message) with
      | .error e => ["bad signature: " ++ e]
      | .ok signer =>
        if signer.keyId ≠ a.keyId then ["the signature was made by a different key than the one named"] else [])

/-- A row that a root voided by its very hash is no longer judged on its signature and subject. -/
structure Judgement where
  bad : List String
  voided : Bool
deriving DecidableEq

/-- The row's hash and whether a root voided it. -/
def hashJudgement (trust : TrustState) (a : Attestation) (message : String) : Judgement :=
  if (attestationHash message a.keyId a.signature).text ≠ a.attestationHash then
    ⟨["the stored attestation hash does not match its contents"], false⟩
  else
    match trust.voids.get a.signerSeq with
    | none => ⟨[], false⟩
    | some named =>
      if named = a.attestationHash then ⟨[], true⟩ else
        ⟨["a root voided an attestation with this signer_seq but a different hash (the row was replaced)"], false⟩

/-- The row's contents: a message that cannot be built is all that is said of them. -/
def contentJudgement (verify : Verifier) (tenant : String) (trust : TrustState) (truth : Truth)
    (bySeq : Dict ℤ Attestation) (a : Attestation) : Except Raised Judgement :=
  match attestationMessage a.kind tenant a.subject a.subjectHash a.signerSeq a.prevHash a.signedAt with
  | .error (.attestError _ message) => .ok ⟨[message], false⟩
  | .error .valueError => .error .valueError
  | .ok message => do
    let j := hashJudgement trust a message
    if j.voided then pure j else do
      let subject ← checkSubject tenant a bySeq truth
      pure ⟨j.bad ++ signerProblems verify trust a message ++ subject, false⟩

def judge (verify : Verifier) (tenant : String) (trust : TrustState) (truth : Truth) (loop : AttestationLoop)
    (a : Attestation) : Except Raised Judgement := do
  let content ← contentJudgement verify tenant trust truth loop.bySeq a
  let position :=
    (if a.signerSeq ≠ loop.expected then
      ["expected attestation " ++ toString loop.expected ++ " (one is missing or repeated)"] else []) ++
    (if a.prevHash ≠ loop.last then
      ["prev_hash does not match the previous attestation (one was removed, reordered or altered)"] else [])
  let prior := if content.voided then none else loop.seen.get (a.kind, a.subject)
  let repeated := match prior with
    | none => []
    | some p => [a.subject ++ " was already attested at " ++ toString p.signerSeq ++
        (if p.subjectHash ≠ a.subjectHash then " with a DIFFERENT hash (equivocation)" else "")]
  pure ⟨position ++ content.bad ++ repeated, content.voided⟩

/-- What a row with nothing wrong adds to the summary. -/
def countValid (summary : AttestationSummary) (a : Attestation) : Except Raised AttestationSummary := do
  let summary := { summary with keysUsed := summary.keysUsed.insert a.keyId }
  if a.kind = "block" then
    match ← parseBlockSubject a.subject with
    | none => pure summary
    | some h => pure { summary with
        blocks := summary.blocks.insert h
        blockSeq := summary.blockSeq.set h a.signerSeq
        blockSubjectHash := summary.blockSubjectHash.set h a.subjectHash }
  else if a.kind = "receipt" then
    pure { summary with
      receipts := summary.receipts.insert a.subject
      receiptSeq := summary.receiptSeq.set a.subject a.signerSeq }
  else
    let summary := { summary with newestCheckpointSeq := max summary.newestCheckpointSeq a.signerSeq }
    match ← parseCheckpointSubject a.subject with
    | none => pure summary
    | some cp => pure { summary with validCheckpoints := summary.validCheckpoints.set a.signerSeq cp.coveredSeq }

def countRow (summary : AttestationSummary) (a : Attestation) (j : Judgement) : Except Raised AttestationSummary := do
  let summary := if j.bad ≠ [] then { summary with badSeqs := summary.badSeqs.insert a.signerSeq } else summary
  let summary ←
    if j.voided then pure { summary with voided := summary.voided ++ [a.signerSeq] }
    else if j.bad = [] then countValid summary a
    else pure summary
  pure { summary with count := summary.count + 1, headSeq := a.signerSeq, headHash := a.attestationHash }

/-- The loop goes on from a judged row. -/
def recordRow (loop : AttestationLoop) (a : Attestation) (j : Judgement) : Except Raised AttestationLoop := do
  let summary ← countRow loop.summary a j
  let fresh := !j.voided && !loop.seen.has (a.kind, a.subject)
  pure {
    problems := loop.problems ++ j.bad.map fun b => ⟨"attestation", "attestation " ++ toString a.signerSeq, b⟩
    summary := summary
    expected := a.signerSeq + 1
    last := a.attestationHash
    seen := if fresh then loop.seen.set (a.kind, a.subject) a else loop.seen
    bySeq := loop.bySeq.set a.signerSeq a }

def attestationStep (verify : Verifier) (tenant : String) (trust : TrustState) (truth : Truth)
    (loop : AttestationLoop) (a : Attestation) : Except Raised AttestationLoop := do
  let j ← judge verify tenant trust truth loop a
  recordRow loop a j

def AttestationLoop.start : AttestationLoop := ⟨[], .empty, 1, genesis.text, [], []⟩

/-- A cosignature counts where the log holds a checkpoint with that number and that hash. -/
def cosignMatches (bySeq : Dict ℤ Attestation) (c : Cosign) : Bool :=
  (bySeq.get c.checkpointSeq).any fun target =>
    target.kind = "checkpoint" && target.attestationHash = c.checkpointHash

def cosignStep (bySeq : Dict ℤ Attestation) (out : List Problem × AttestationSummary) (c : Cosign) :
    List Problem × AttestationSummary :=
  if cosignMatches bySeq c then
    (out.1, { out.2 with
      cosignedCheckpointSeq := max out.2.cosignedCheckpointSeq c.checkpointSeq
      cosignedCheckpoints := out.2.cosignedCheckpoints.insert c.checkpointSeq })
  else
    (out.1 ++ [⟨"cosign", "trust statement " ++ toString c.stmtSeq, "the root " ++ c.rootId ++
      " cosigned checkpoint " ++ toString c.checkpointSeq ++ " with hash " ++ first 16 c.checkpointHash ++
      "..., which is not what the log holds (a fork, or a rewritten log)"⟩], out.2)

def bySignerSeq (rows : List Attestation) : List Attestation :=
  rows.mergeSort (fun a b => a.signerSeq ≤ b.signerSeq)

def evaluateAttestations (verify : Verifier) (tenant : String) (trust : TrustState) (rows : List Attestation)
    (truth : Truth) : Except Raised (List Problem × AttestationSummary) := do
  let loop ← (bySignerSeq rows).foldlM (attestationStep verify tenant trust truth) AttestationLoop.start
  pure (trust.cosigns.foldl (cosignStep loop.bySeq) (loop.problems, loop.summary))

/-- 0 = no valid attestation, 1 = one by an authorized key, 2 = covered by a checkpoint that a root cosigned. -/
def attestationLevel (summary : AttestationSummary) (signerSeq : Option ℤ) : ℕ :=
  match signerSeq with
  | none => 0
  | some s =>
    if summary.cosignedCheckpoints.any fun c => (summary.validCheckpoints.get c).any fun covered => s ≤ (covered : ℤ)
    then 2 else 1

variable {verify : Verifier} {tenant : String} {trust : TrustState} {truth : Truth}

lemma recordRow_eq {loop loop' : AttestationLoop} {a : Attestation} {j : Judgement}
    (h : recordRow loop a j = .ok loop') :
    loop'.expected = a.signerSeq + 1 ∧ loop'.last = a.attestationHash ∧
      loop'.bySeq = loop.bySeq.set a.signerSeq a := by
  unfold recordRow at h
  cases hs : countRow loop.summary a j with
  | error e => simp [hs, bind, Except.bind] at h
  | ok summary =>
    simp only [hs, bind, Except.bind, pure, Except.pure, Except.ok.injEq] at h
    subst h
    exact ⟨rfl, rfl, rfl⟩

lemma attestationStep_eq {loop loop' : AttestationLoop} {a : Attestation}
    (h : attestationStep verify tenant trust truth loop a = .ok loop') :
    ∃ j, judge verify tenant trust truth loop a = .ok j ∧ recordRow loop a j = .ok loop' := by
  unfold attestationStep at h
  cases hj : judge verify tenant trust truth loop a with
  | error e => simp [hj, bind, Except.bind] at h
  | ok j =>
    simp only [hj, bind, Except.bind] at h
    exact ⟨j, rfl, h⟩

end ContinuityLedger.Signatures
