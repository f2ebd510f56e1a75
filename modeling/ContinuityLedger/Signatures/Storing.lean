import ContinuityLedger.Blocks.Block
import ContinuityLedger.Evidence.Links
import ContinuityLedger.Signatures.StoreFunctions

/-! The two ways into the signing logs, statement by statement: a transaction reads, verifies what it read, calls its
database function and commits; between any two of these the others go on. -/

namespace ContinuityLedger.Signatures

open Foundations Foundations.Sha256 Blocks Evidence

def Statement.follows (s : Statement) : ℤ × String := (s.stmtSeq - 1, s.prevHash)

def Statement.leaves (s : Statement) : ℤ × String := (s.stmtSeq, s.statementHash)

def AttestationCall.normalized (call : AttestationCall) : AttestationCall :=
  { call with signature := normalizeSignature call.signature }

/-- An empty key or hash is none. -/
def StatementCall.normalized (call : StatementCall) : StatementCall :=
  { call with
    pubkey := call.pubkey.filter (· ≠ "")
    subjectHash := call.subjectHash.filter (· ≠ "")
    signature := normalizeSignature call.signature }

namespace Storing

/-- Why a transaction stores nothing; an error that Python raises on its own is not told apart. -/
inductive StoreFailure
  | attest (code message : String) (status : ℕ)
  | raised
  | database (refusal : StoreRefusal)
  | unavailable
deriving DecidableEq

inductive Answer
  | attestation (signerSeq : ℤ) (attestationHash keyId : String)
  | statement (stmtSeq : ℤ) (statementHash kind keyId : String)

/-! ### What is checked -/

/-- A text to show: a surrogate is no character. -/
def shown (s : PyStr) : String :=
  String.ofList (s.map fun p => match p with
    | .scalar c => c
    | .surrogate _ => '\ufffd')

def loadReceipt (rt : Runtime) (obj : EvidenceObject) : Except Exn (String × Option String) :=
  (verifyStored rt obj).map fun damaged =>
    (obj.id, damaged.head?.map fun p => "receipt " ++ obj.id ++ " is damaged: " ++ shown p)

def truthOf (blocks : List Block) (receipts : List (String × Option String)) : Truth where
  blockHash h := (Dict.ofPairs (blocks.map fun b => (b.height, b.blockHash.text))).get (h : ℤ)
  receiptProblem id := ((Dict.ofPairs receipts).get id).getD (some ("receipt " ++ id ++ " does not exist"))

def loadTruth (rt : Runtime) (blocks : List Block) (objects : List EvidenceObject) : Except Exn Truth :=
  ((objects.filter (·.schemaId = cesReplayReceipt)).mapM (loadReceipt rt)).map (truthOf blocks)

def logHead {α : Type} (leaves : α → ℤ × String) (existing : List α) : ℤ × String :=
  (existing.getLast?.map leaves).getD (0, genesis.text)

def outOfOrder (code what : String) (head : ℤ × String) : StoreFailure :=
  .attest code ("the next " ++ what ++ " is " ++ toString (head.1 + 1) ++ " and must name " ++ head.2 ++
    " as prev_hash") 409

def messageFailure : Raised → StoreFailure
  | .attestError code message => .attest code message 422
  | .valueError => .raised

def alreadyAttested (problem : String) : Bool :=
  problem.toList.tails.any "already attested".toList.isPrefixOf

/-- The problems under one subject. -/
def mine (subject : String) (problems : List Problem) : List String :=
  (problems.filter (·.subject = subject)).map Problem.problem

def attestationSubject (seq : ℤ) : String := "attestation " ++ toString seq

def statementSubject (seq : ℤ) : String := "trust statement " ++ toString seq

/-- The row that is judged, with the hash that Python computes. -/
def judgedAttestation (message : String) (call : AttestationCall) : Attestation where
  signerSeq := call.signerSeq
  kind := call.kind
  subject := call.subject
  subjectHash := call.subjectHash
  prevHash := call.prevHash
  keyId := call.keyId
  signedAt := call.signedAt
  signature := call.signature
  attestationHash := (attestationHash message call.keyId call.signature).text

def judgedStatement (message : String) (call : StatementCall) : Statement where
  stmtSeq := call.stmtSeq
  kind := call.kind
  keyId := call.keyId
  pubkey := call.pubkey
  arg := call.arg
  subjectHash := call.subjectHash
  prevHash := call.prevHash
  signedBy := call.signedBy
  signature := call.signature
  statementHash := (statementHash message call.signedBy call.signature).text

section Checks

variable (verify : Verifier) (tenant : String) (roots : Dict String PublicKey)

def judgeAttestation (trusted : List Statement) (existing : List Attestation) (truth : Truth) (row : Attestation) :
    Except StoreFailure Unit :=
  match evaluateAttestations verify tenant (evaluateTrust verify tenant roots trusted) (existing ++ [row]) truth with
  | .error _ => .error .raised
  | .ok (problems, _) =>
    let mine := mine (attestationSubject row.signerSeq) problems
    if mine = [] then .ok ()
    else if mine.any alreadyAttested then .error (.attest "already_attested" ("; ".intercalate mine) 409)
    else .error (.attest "attestation_invalid" ("; ".intercalate mine) 422)

def checkAttestation (trusted : List Statement) (existing : List Attestation) (truth : Truth) (call : AttestationCall) :
    Except StoreFailure Unit :=
  let head := logHead Attestation.leaves existing
  if (call.signerSeq, call.prevHash) ≠ (head.1 + 1, head.2) then
    .error (outOfOrder "attestation_out_of_order" "attestation" head)
  else
    match attestationMessage call.kind tenant call.subject call.subjectHash call.signerSeq call.prevHash
      call.signedAt with
    | .error e => .error (messageFailure e)
    | .ok message => judgeAttestation verify tenant roots trusted existing truth (judgedAttestation message call)

/-- The place in the log and the text that is signed. -/
def statementMessage (existing : List Statement) (call : StatementCall) : Except StoreFailure String :=
  let head := logHead Statement.leaves existing
  if (call.stmtSeq, call.prevHash) ≠ (head.1 + 1, head.2) then
    .error (outOfOrder "statement_out_of_order" "statement" head)
  else
    (trustMessage call.kind tenant call.keyId call.arg call.subjectHash call.stmtSeq call.prevHash).mapError
      messageFailure

/-- The hash of the row with the number that a statement names. -/
def targetHash (log : List Attestation) (kind : Option String) (arg : Option ℤ) : Option String :=
  (log.find? fun a => arg = some a.signerSeq && kind.all (a.kind = ·)).map Attestation.attestationHash

def checkTarget (log : List Attestation) (call : StatementCall) : Except StoreFailure Unit :=
  let names (target : Option String) : Bool := target.isSome && target = call.subjectHash
  if call.kind = "cosign" && !names (targetHash log (some "checkpoint") call.arg) then
    .error (.attest "cosign_unknown_checkpoint"
      "there is no checkpoint attestation with that signer_seq and hash to cosign" 422)
  else if call.kind = "void" && !names (targetHash log none call.arg) then
    .error (.attest "void_unknown_attestation" "there is no attestation with that signer_seq and hash to void" 422)
  else .ok ()

def judgeStatement (existing : List Statement) (row : Statement) : Except StoreFailure Unit :=
  let mine := mine (statementSubject row.stmtSeq) (evaluateTrust verify tenant roots (existing ++ [row])).problems
  if mine = [] then .ok () else .error (.attest "statement_invalid" ("; ".intercalate mine) 422)

def checkStatement (existing : List Statement) (log : List Attestation) (call : StatementCall) :
    Except StoreFailure Unit := do
  let message ← statementMessage tenant existing call
  checkTarget log call
  judgeStatement verify tenant roots existing (judgedStatement message call)

end Checks

/-! ### The transactions -/

structure Committed where
  statements : List Statement
  attestations : List Attestation
  blocks : List Block
  objects : List EvidenceObject

/-- Where a transaction stands, with what it has read. -/
inductive Progress
  | readingTrust (call : AttestationCall)
  | readingLog (call : AttestationCall) (trusted : List Statement)
  | readingBlocks (call : AttestationCall) (trusted : List Statement) (existing : List Attestation)
  | readingReceipts (call : AttestationCall) (trusted : List Statement) (existing : List Attestation)
      (blocks : List Block)
  | storing (call : AttestationCall) (trusted : List Statement)
  | stored (call : AttestationCall) (trusted : List Statement)
  | readingStatements (call : StatementCall)
  | readingTarget (call : StatementCall) (existing : List Statement)
  | storingStatement (call : StatementCall)
  | storedStatement (call : StatementCall)

/-- Each log has an advisory lock: the session that holds it, and the log as it sees it. -/
structure System (S : Type) where
  committed : Committed
  attester : Option (S × List Attestation)
  truster : Option (S × List Statement)
  calls : S → Option Progress

def System.start {S : Type} : System S := ⟨⟨[], [], [], []⟩, none, none, fun _ => none⟩

inductive Event (S : Type)
  | storeAttestation (session : S) (body : AttestationCall)
  | storeTrustStatement (session : S) (body : StatementCall)
  | read (session : S)
  | store (session : S)
  | commit (session : S)
  | fail (session : S)
  | sealBlock (b : Block)
  | putEvidence (now : String) (req : EvidenceObjectCreate)

structure Ended (S : Type) where
  session : S
  result : Except StoreFailure Answer

abbrev Stepped (S : Type) := System S × Option (Ended S)

variable {S : Type} [DecidableEq S]

def System.goes (sys : System S) (s : S) (p : Progress) : Stepped S :=
  ({ sys with calls := Function.update sys.calls s (some p) }, none)

/-- The transaction is over, and a lock that it held is free. -/
def System.ends (sys : System S) (s : S) (result : Except StoreFailure Answer) : Stepped S :=
  ({ sys with
      attester := sys.attester.filter (·.1 ≠ s)
      truster := sys.truster.filter (·.1 ≠ s)
      calls := Function.update sys.calls s none }, some ⟨s, result⟩)

def noTrustRoot (what : String) : StoreFailure :=
  .attest "no_trust_root" ("no trust root is configured (JARVIS_TRUST_ROOTS_FILE); " ++ what) 409

def databaseFailure (code : String) : StoreRefusal → StoreFailure
  | .sequence message => .attest code message 409
  | refusal => .database refusal

def statementsInOrder (log : List Statement) : List Statement := log.mergeSort (fun a b => a.stmtSeq ≤ b.stmtSeq)

variable (verify : Verifier) (tenant : String) (roots : Dict String PublicKey) (rt : Runtime)

def stepBegin (sys : System S) (s : S) (p : Progress) (unrooted : String) : Option (Stepped S) :=
  if (sys.calls s).isSome then none
  else if roots.isEmpty then some (sys.ends s (.error (noTrustRoot unrooted)))
  else some (sys.goes s p)

/-- A transaction goes on where a check has passed. -/
def System.checked (sys : System S) (s : S) (p : Progress) : Except StoreFailure Unit → Stepped S
  | .error e => sys.ends s (.error e)
  | .ok _ => sys.goes s p

/-- The next `SELECT`, and what is checked before the one after it. -/
def stepRead (sys : System S) (s : S) : Option (Stepped S) :=
  match sys.calls s with
  | some (.readingTrust call) => some (sys.goes s (.readingLog call (statementsInOrder sys.committed.statements)))
  | some (.readingLog call trusted) =>
    some (sys.goes s (.readingBlocks call trusted (bySignerSeq sys.committed.attestations)))
  | some (.readingBlocks call trusted existing) =>
    some (sys.goes s (.readingReceipts call trusted existing sys.committed.blocks))
  | some (.readingReceipts call trusted existing blocks) =>
    match loadTruth rt blocks sys.committed.objects with
    | .error _ => some (sys.ends s (.error .raised))
    | .ok truth =>
      some (sys.checked s (.storing call trusted) (checkAttestation verify tenant roots trusted existing truth call))
  | some (.readingStatements call) =>
    let existing := statementsInOrder sys.committed.statements
    some (sys.checked s (.readingTarget call existing) ((statementMessage tenant existing call).map fun _ => ()))
  | some (.readingTarget call existing) =>
    some (sys.checked s (.storingStatement call)
      (checkStatement verify tenant roots existing sys.committed.attestations call))
  | _ => none

/-- The database function: it waits for the lock of its log, and sees what is committed then. -/
def stepStore (sys : System S) (s : S) : Option (Stepped S) :=
  match sys.calls s with
  | some (.storing call trusted) =>
    if sys.attester.isSome then none else
    match jarvisStoreAttestation (some tenant) tenant sys.committed.attestations call with
    | .error refusal => some (sys.ends s (.error (databaseFailure "attestation_out_of_order" refusal)))
    | .ok log => some ({ sys with attester := some (s, log) }.goes s (.stored call trusted))
  | some (.storingStatement call) =>
    if sys.truster.isSome then none else
    match jarvisStoreTrustStatement (some tenant) tenant sys.committed.statements call with
    | .error refusal => some (sys.ends s (.error (databaseFailure "statement_out_of_order" refusal)))
    | .ok log => some ({ sys with truster := some (s, log) }.goes s (.storedStatement call))
  | _ => none

/-- What the others see of a log once the session has committed. -/
def published {α : Type} (held : Option (S × List α)) (s : S) (log : List α) : List α :=
  match held with
  | none => log
  | some (holder, working) => if holder = s then working else log

def stepCommit (sys : System S) (s : S) : Option (Stepped S) :=
  match sys.calls s with
  | some (.stored call _) =>
    let committed :=
      { sys.committed with attestations := published sys.attester s sys.committed.attestations }
    some ({ sys with committed := committed }.ends s
      (.ok (.attestation call.signerSeq (call.row tenant).attestationHash call.keyId)))
  | some (.storedStatement call) =>
    let committed := { sys.committed with statements := published sys.truster s sys.committed.statements }
    some ({ sys with committed := committed }.ends s
      (.ok (.statement call.stmtSeq (call.row tenant).statementHash call.kind call.keyId)))
  | _ => none

/-- Sealing, as far as it matters here: a block under a new height. -/
def stepSeal (sys : System S) (b : Block) : Option (Stepped S) :=
  if sys.committed.blocks.any (·.height = b.height) then none
  else some ({ sys with committed := { sys.committed with blocks := sys.committed.blocks ++ [b] } }, none)

def stepPut (sys : System S) (now : String) (req : EvidenceObjectCreate) : Stepped S :=
  match putEvidenceObject rt now sys.committed.objects req with
  | .error _ => (sys, none)
  | .ok (_, _, after) => ({ sys with committed := { sys.committed with objects := after } }, none)

def step (sys : System S) : Event S → Option (Stepped S)
  | .storeAttestation s body =>
    stepBegin roots sys s (.readingTrust body.normalized)
      "nothing can be verified, so nothing is stored"
  | .storeTrustStatement s body =>
    stepBegin roots sys s (.readingStatements body.normalized)
      "no statement can be verified, so none is stored"
  | .read s => stepRead verify tenant roots rt sys s
  | .store s => stepStore tenant sys s
  | .commit s => stepCommit tenant sys s
  | .fail s => (sys.calls s).map fun _ => sys.ends s (.error .unavailable)
  | .sealBlock b => stepSeal sys b
  | .putEvidence now req => some (stepPut rt sys now req)

def run : System S → List (Event S) → Option (System S)
  | sys, [] => some sys
  | sys, ev :: evs => (step verify tenant roots rt sys ev).bind fun r => run r.1 evs

/-- Each attestation that a run commits, with all that is committed right after it. -/
def commits : System S → List (Event S) → List (Attestation × Committed)
  | _, [] => []
  | sys, ev :: evs =>
    match step verify tenant roots rt sys ev with
    | none => []
    | some r => (r.1.committed.attestations.drop sys.committed.attestations.length).map (·, r.1.committed) ++
        commits r.1 evs

end Storing

end ContinuityLedger.Signatures
