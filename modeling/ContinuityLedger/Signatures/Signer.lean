import ContinuityLedger.Blocks.Block
import ContinuityLedger.Foundations.Conserved
import ContinuityLedger.Signatures.Keys

/-! The signer: it plans what the service says is pending, has the newest pending block checked independently, and signs
blocks, receipts and one checkpoint. Every answer of the service is an input of its own; nothing ties them together. -/

namespace ContinuityLedger.Signatures

open Foundations Foundations.Sha256 Foundations.PyText

inductive SignerRaised
  | signerError (code message : String) (exitCode : ℕ)
  | raised (e : Raised)
  | malformed

def exitUnhealthy : ℕ := 4

def exitApi : ℕ := 5

/-- What comes back from one request: a body of the expected form, another status, or neither. -/
inductive Answer (α : Type)
  | body (b : α)
  | refused (status : ℤ) (detail : String)
  | malformed
  | unreachable (why : String)

/-- `Api.request`: the body, or the status and detail where that is not 200. -/
def Answer.request {α : Type} : Answer α → Except SignerRaised (Except (ℤ × String) α)
  | .body b => .ok (.ok b)
  | .refused status detail => .ok (.error (status, detail))
  | .malformed => .error .malformed
  | .unreachable why => .error (.signerError "api_unreachable" ("cannot reach the ledger at " ++ why) exitApi)

/-- `Api.get`. -/
def Answer.get {α : Type} (path : String) (a : Answer α) : Except SignerRaised α := do
  match ← a.request with
  | .ok b => pure b
  | .error (status, detail) =>
    .error (.signerError "api_error" ("GET " ++ path ++ " returned HTTP " ++ toString status ++ ": " ++ detail) exitApi)

structure TrustKey where
  keyId : String
  fromSignerSeq : ℤ
  revokedAfterSignerSeq : Option ℤ

structure TrustView where
  trustRootsConfigured : Bool
  keys : List TrustKey

structure PendingBlock where
  height : ℤ
  blockHash : String

structure PendingReceipt where
  id : String
  createdAt : String

structure PendingHead where
  tenant : String
  headSeq : ℤ
  nextSignerSeq : ℤ
  prevHash : String

structure PendingView where
  blocks : List PendingBlock
  receipts : List PendingReceipt
  head : PendingHead

structure LogProblem where
  check : String
  problem : String

structure LogCheck where
  ok : Bool
  problems : List LogProblem
  warnings : List String

structure BlockView where
  height : ℤ
  firstSeq : ℤ
  lastSeq : ℤ
  entryCount : ℤ
  prevBlockHash : String
  entriesRoot : String
  blockHash : String
  format : ℤ

structure ReceiptPayload where
  tenant : Option String
  blockHeight : Option ℤ
  atSeq : Option ℤ
  blockHash : Option String

structure ReceiptObject where
  id : Option String
  schemaId : Option String
  payload : ReceiptPayload

structure Stored where
  signerSeq : ℤ
  attestationHash : String

structure TipView where
  tipHeight : ℤ
  tipBlockHash : String

/-- The service's answers in one pass, one for each request that the pass can make. -/
structure Service where
  trust : Answer TrustView
  statusPending : Answer PendingView
  verify : Answer LogCheck
  pending : Answer PendingView
  block : ℕ → Answer BlockView
  receipt : ℕ → Answer ReceiptObject
  receiptBlock : ℕ → Answer BlockView
  storedBlock : ℕ → Answer Stored
  storedReceipt : ℕ → Answer Stored
  tip : Answer TipView
  storedCheckpoint : Answer Stored

/-- The host: the key, the clock, `ssh-keygen`, and the two offline checks. -/
structure Host where
  key : PublicKey
  now : ℕ → String
  sign : ℕ → String → Except SignerRaised String
  verifyBlock : ℤ → String → Except SignerRaised Unit
  verifyReceipt : String → Except SignerRaised Unit

/-- A message handed to the key, with what it names. -/
inductive Message
  | block (height : ℤ) (blockHash text : String)
  | receipt (id text : String)
  | checkpoint (coveredSeq : ℤ) (coveredHead : String) (tipHeight : ℤ) (tipBlockHash text : String)

abbrev Signing := Pass Message SignerRaised

structure Status where
  keyId : String
  authorized : Bool
  authorization : Option TrustKey
  trustRootsConfigured : Bool
  pendingBlocks : List ℤ
  pendingReceipts : ℕ
  headSeq : ℤ
  nextSignerSeq : ℤ

def status (service : Service) (key : PublicKey) : Except SignerRaised Status := do
  let trust ← service.trust.get "/api/jarvis/trust"
  let pending ← service.statusPending.get "/api/jarvis/attestations/pending"
  let mine := trust.keys.find? fun k => k.keyId = key.keyId
  pure ⟨key.keyId, mine.any (·.revokedAfterSignerSeq.isNone), mine, trust.trustRootsConfigured,
    pending.blocks.map PendingBlock.height, pending.receipts.length, pending.head.headSeq, pending.head.nextSignerSeq⟩

/-- `"not verified" in w.lower()`: no other letter becomes one of these in lower case. -/
def saysNotVerified (w : String) : Bool :=
  (w.toList.map Char.toLower).tails.any "not verified".toList.isPrefixOf

def requireSigningLogCatchupSafe (service : Service) : Except SignerRaised Unit := do
  let check ← service.verify.get "/api/jarvis/attestations/verify"
  let blockers := check.problems.filter fun p => p.check ≠ "unsigned"
  let notVerified := check.warnings.filter saysNotVerified
  let unsignedOnly := !check.problems.isEmpty && blockers.isEmpty
  if !blockers.isEmpty || !notVerified.isEmpty || (!check.ok && !unsignedOnly) then
    let details := if blockers.isEmpty then check.problems else blockers
    let why := match details with
      | d :: _ => d.problem
      | [] => if notVerified.isEmpty then "verification did not succeed" else "; ".intercalate notVerified
    .error (.signerError "log_unhealthy"
      ("the signing log does not verify, so it will not be extended: " ++ why) exitUnhealthy)
  else pure ()

/-- `blocks.block_hash` of the fields that the service gave. -/
def blockHashOf (tenant : String) (b : BlockView) : Except SignerRaised Hex64 :=
  if matchesHex64 b.prevBlockHash && matchesHex64 b.entriesRoot then
    .ok (sha256Hex ("jarvis-block|v" ++ toString b.format ++ "|" ++ toString (utf8 tenant).length ++ ":" ++ tenant ++
      "|" ++ toString b.height ++ "|" ++ toString b.firstSeq ++ "|" ++ toString b.lastSeq ++ "|" ++
      toString b.entryCount ++ "|" ++ b.prevBlockHash ++ "|" ++ b.entriesRoot))
  else .error (.raised .valueError)

lemma blockHashOf_eq (tenant : String) (height firstSeq lastSeq entryCount : ℤ) (prev root : Hex64) (own : String)
    (fmt : ℤ) :
    blockHashOf tenant ⟨height, firstSeq, lastSeq, entryCount, prev.text, root.text, own, fmt⟩ =
      .ok (Blocks.blockHash tenant height firstSeq lastSeq entryCount prev root fmt) := by
  simp [blockHashOf, matchesHex64, prev.valid, root.valid, Blocks.blockHash]

structure PlannedBlock where
  height : ℤ
  blockHash : String

/-- A pending block is planned with the hash that the service's block has, where its own fields give that hash. -/
def planBlock (service : Service) (tenant : String) (item : PendingBlock × ℕ) : Except SignerRaised PlannedBlock := do
  let block ← (service.block item.2).get ("/api/jarvis/blocks/" ++ toString item.1.height)
  let recomputed ← blockHashOf tenant block
  if recomputed.text ≠ block.blockHash ∨ block.blockHash ≠ item.1.blockHash then
    .error (.signerError "block_inconsistent" ("block " ++ toString item.1.height ++
      "'s hash does not match its own fields; refusing to sign it") exitUnhealthy)
  else pure ⟨block.height, block.blockHash⟩

/-- Why a receipt is not signed. -/
inductive Refusal
  | notEvidenceId
  | notReturned (status : ℤ)
  | differentObject
  | otherTenant (named : Option String)
  | malformedPoint
  | noBlock (height status : ℤ)
  | otherBlock (height : ℤ) (named : Option String)
  | notSealedPoint (atSeq height firstSeq lastSeq : ℤ)
  | notRederived (message : String)

def receiptToSign (service : Service) (tenant receiptId : String) (i : ℕ) : Except SignerRaised (Option Refusal) :=
  if !(startsWith receiptId "eo:sha256:" && isHex64 (String.ofList (receiptId.toList.drop 10))) then
    .ok (some .notEvidenceId)
  else do
    match ← (service.receipt i).request with
    | .error (status, _) => pure (some (.notReturned status))
    | .ok obj =>
      if obj.id ≠ some receiptId ∨ obj.schemaId ≠ some "CES.Local.ReplayReceipt.v1" then pure (some .differentObject)
      else if obj.payload.tenant ≠ some tenant then pure (some (.otherTenant obj.payload.tenant))
      else
        match obj.payload.blockHeight, obj.payload.atSeq with
        | some height, some atSeq =>
          match ← (service.receiptBlock i).request with
          | .error (status, _) => pure (some (.noBlock height status))
          | .ok block => do
            let recomputed ← blockHashOf tenant block
            if recomputed.text ≠ block.blockHash ∨ some block.blockHash ≠ obj.payload.blockHash then
              pure (some (.otherBlock height obj.payload.blockHash))
            else if block.firstSeq ≤ atSeq ∧ atSeq ≤ block.lastSeq then pure none
            else pure (some (.notSealedPoint atSeq height block.firstSeq block.lastSeq))
        | _, _ => pure (some .malformedPoint)

/-- The receipts to sign, at most `cap` of them, and those refused. -/
structure ReceiptPlan where
  planned : List String
  refused : List (String × Refusal)

def planReceipt (service : Service) (tenant : String) (cap : ℤ) (plan : ReceiptPlan) (item : PendingReceipt × ℕ) :
    Except SignerRaised ReceiptPlan := do
  match ← receiptToSign service tenant item.1.id item.2 with
  | some why => pure { plan with refused := plan.refused ++ [(item.1.id, why)] }
  | none => pure (if (plan.planned.length : ℤ) < cap then { plan with planned := plan.planned ++ [item.1.id] } else plan)

/-- `JARVIS_SIGN_MAX_RECEIPTS`. -/
def maxReceipts (env : Option String) : ℤ :=
  match env.filter (· ≠ "") with
  | none => 25
  | some text => ((intText text).map (max 0)).getD 25

/-- What the log's end is, as the pass follows it from answer to answer. -/
structure LogEnd where
  seq : ℤ
  prev : String

structure SignResult where
  tenant : String
  signedBlocks : List (ℤ × ℤ)
  signedReceipts : List (String × ℤ)
  checkpoint : Option (ℤ × String × ℤ × ℤ)
  dryRun : Bool
  plannedBlocks : List ℤ
  plannedReceipts : List String
  refusedReceipts : List (String × Refusal)
  deferredReceipts : ℕ
  note : Option String

/-- The message of an attestation, signed at the host's time. -/
def attestationText (host : Host) (kind tenant subject subjectHash : String) (log : LogEnd) (i : ℕ) :
    Except SignerRaised String :=
  match attestationMessage kind tenant subject subjectHash log.seq log.prev (host.now i) with
  | .ok text => .ok text
  | .error e => .error (.raised e)

def signMessage (host : Host) (i : ℕ) (m : Message) (text : String) : Signing String := do
  Pass.emit m
  Pass.ofExcept (host.sign i text)

/-- What the service stored, where it did and at the position it was told. -/
def storedAt (a : Answer Stored) (what : String) (seq : ℤ) : Except SignerRaised Stored := do
  match ← a.request with
  | .error (status, detail) =>
    .error (.signerError "store_refused" ("the service refused the attestation of " ++ what ++ ": HTTP " ++
      toString status ++ " " ++ detail) exitApi)
  | .ok resp =>
    if resp.signerSeq ≠ seq then
      .error (.signerError "store_unexpected" "the service stored the attestation at an unexpected position" exitApi)
    else pure resp

def signBlock (host : Host) (service : Service) (tenant : String) (p : PlannedBlock) (i : ℕ) (log : LogEnd) :
    Signing LogEnd := do
  let text ← Pass.ofExcept
    (attestationText host "block" tenant ("block:" ++ toString p.height) p.blockHash log i)
  let _ ← signMessage host i (.block p.height p.blockHash text) text
  let resp ← Pass.ofExcept (storedAt (service.storedBlock i) ("block " ++ toString p.height) log.seq)
  pure ⟨log.seq + 1, resp.attestationHash⟩

/-- The planned blocks in order, with where each was stored. -/
def signBlocks (host : Host) (service : Service) (tenant : String) :
    List PlannedBlock → ℕ → LogEnd → Signing (List (ℤ × ℤ) × LogEnd)
  | [], _, log => pure ([], log)
  | p :: plan, i, log => do
    let next ← signBlock host service tenant p i log
    let (signed, last) ← signBlocks host service tenant plan (i + 1) next
    pure ((p.height, log.seq) :: signed, last)

def signReceipt (host : Host) (service : Service) (tenant id : String) (i j : ℕ) (log : LogEnd) : Signing LogEnd := do
  let text ← Pass.ofExcept (attestationText host "receipt" tenant id (String.ofList (id.toList.drop 10)) log i)
  let _ ← signMessage host i (.receipt id text) text
  let resp ← Pass.ofExcept (storedAt (service.storedReceipt j) ("receipt " ++ id) log.seq)
  pure ⟨log.seq + 1, resp.attestationHash⟩

structure ReceiptsDone where
  signed : List (String × ℤ)
  refused : List (String × Refusal)
  log : LogEnd

/-- The planned receipts in order; `i` messages were signed before, and this is the `j`-th receipt. -/
def signReceipts (host : Host) (service : Service) (tenant : String) :
    List String → ℕ → ℕ → LogEnd → Signing ReceiptsDone
  | [], _, _, log => pure ⟨[], [], log⟩
  | id :: plan, i, j, log =>
    match host.verifyReceipt id with
    | .error (.signerError _ message _) => do
      let rest ← signReceipts host service tenant plan i j log
      pure { rest with refused := (id, .notRederived message) :: rest.refused }
    | .error e => Pass.ofExcept (.error e)
    | .ok () => do
      let next ← signReceipt host service tenant id i j log
      let rest ← signReceipts host service tenant plan (i + 1) (j + 1) next
      pure { rest with signed := (id, log.seq) :: rest.signed }

def signCheckpoint (host : Host) (service : Service) (tenant : String) (i : ℕ) (log : LogEnd) :
    Signing (ℤ × String × ℤ × ℤ) := do
  let tip ← Pass.ofExcept (service.tip.get "/api/jarvis/attestations/head")
  let coveredSeq := log.seq - 1
  let subject := checkpointSubject coveredSeq log.prev tip.tipHeight tip.tipBlockHash
  let subjectHash := checkpointHash tenant coveredSeq log.prev tip.tipHeight tip.tipBlockHash
  let text ← Pass.ofExcept (attestationText host "checkpoint" tenant subject subjectHash.text log i)
  let _ ← signMessage host i (.checkpoint coveredSeq log.prev tip.tipHeight tip.tipBlockHash text) text
  match ← Pass.ofExcept service.storedCheckpoint.request with
  | .error (status, detail) =>
    Pass.ofExcept (.error (.signerError "store_refused" ("the service refused the checkpoint: HTTP " ++
      toString status ++ " " ++ detail) exitApi))
  | .ok resp => pure (log.seq, resp.attestationHash, coveredSeq, tip.tipHeight)

def byPendingHeight (blocks : List PendingBlock) : List PendingBlock :=
  blocks.mergeSort (fun a b => a.height ≤ b.height)

/-- `(created_at, id)`. -/
def byCreated (receipts : List PendingReceipt) : List PendingReceipt :=
  receipts.mergeSort (fun a b => a.createdAt < b.createdAt || (a.createdAt = b.createdAt && a.id ≤ b.id))

/-- The gates before anything is planned: what is pending, once the key may sign it. -/
def authorizedPending (host : Host) (service : Service) : Except SignerRaised PendingView := do
  let st ← status service host.key
  if !st.trustRootsConfigured then
    .error (.signerError "no_trust_root" ("the service has no trust root configured, so it cannot verify " ++
      "(or accept) anything; run: jarvisctl attest install-roots") exitUnhealthy)
  else
    match st.authorization with
    | none => .error (.signerError "key_not_authorized" (host.key.keyId ++ " is not authorized by a root; the key " ++
        "ceremony (docs/SIGNING_RUNBOOK.md) has not been done for this key") exitUnhealthy)
    | some auth =>
      match auth.revokedAfterSignerSeq with
      | some cutoff => .error (.signerError "key_revoked" (host.key.keyId ++ " has been revoked (cutoff " ++
          toString cutoff ++ "); rotate to a new key") exitUnhealthy)
      | none => do
        requireSigningLogCatchupSafe service
        let pending ← service.pending.get "/api/jarvis/attestations/pending"
        if pending.head.nextSignerSeq < auth.fromSignerSeq then
          .error (.signerError "key_not_yet_valid" ("the key is authorized from attestation " ++
            toString auth.fromSignerSeq ++ ", the next one is " ++ toString pending.head.nextSignerSeq) exitUnhealthy)
        else pure pending

/-- The newest planned block is checked against the raw rows. -/
def verifyNewest (host : Host) (plan : List PlannedBlock) : Except SignerRaised Unit :=
  match plan.getLast? with
  | none => .ok ()
  | some newest => host.verifyBlock newest.height newest.blockHash

/-- `run_sign`, with at most `cap` receipts. -/
def runSign (host : Host) (service : Service) (dryRun : Bool) (cap : ℤ) : Signing SignResult := do
  let pending ← Pass.ofExcept (authorizedPending host service)
  let tenant := pending.head.tenant
  let plan ← Pass.ofExcept ((byPendingHeight pending.blocks).zipIdx.mapM (planBlock service tenant))
  let rplan ← Pass.ofExcept ((byCreated pending.receipts).zipIdx.foldlM (planReceipt service tenant cap) ⟨[], []⟩)
  let planned : SignResult := {
    tenant := tenant
    signedBlocks := []
    signedReceipts := []
    checkpoint := none
    dryRun := dryRun
    plannedBlocks := plan.map PlannedBlock.height
    plannedReceipts := rplan.planned
    refusedReceipts := rplan.refused
    deferredReceipts := pending.receipts.length - rplan.refused.length - rplan.planned.length
    note := none }
  if plan.isEmpty && rplan.planned.isEmpty then
    pure { planned with note := some (if rplan.refused.isEmpty then "nothing pending" else "nothing signable") }
  else if dryRun then pure planned
  else do
    Pass.ofExcept (verifyNewest host plan)
    let (signedBlocks, log) ← signBlocks host service tenant plan 0 ⟨pending.head.nextSignerSeq, pending.head.prevHash⟩
    let done ← signReceipts host service tenant rplan.planned plan.length 0 log
    let result := { planned with
      signedBlocks := signedBlocks
      signedReceipts := done.signed
      refusedReceipts := rplan.refused ++ done.refused }
    if signedBlocks.isEmpty && done.signed.isEmpty then pure { result with note := some "nothing signable" }
    else do
      let checkpoint ← signCheckpoint host service tenant (plan.length + done.signed.length) done.log
      pure { result with checkpoint := some checkpoint }

end ContinuityLedger.Signatures
